import Interlock.Pool.Step

/-!
# Using a pool

Calls are made one at a time by the main thread.  After each of them everybody goes on until
nobody can; a call that has not returned by then is left to a thread of its own, and goes on in
later calls.
-/

namespace Interlock.Pool

/-- A pool in use, and the calls that have not returned. -/
structure Session where
  pool : Pool
  pending : List Nat := []

namespace Session

/-- Whether a step of a call gets it on.  A parked submitter goes round in vain while there is
neither an idle worker nor a stop. -/
def isUseful (p : Pool) (call : Nat) : Bool :=
  match p.calls[call]? with
  | none => false
  | some c =>
    if (match c.activity with
        | .submitting _ .parking => true
        | _ => false)
    then !p.idle.isEmpty || p.control.isStopping
    else p.canStepCall c

/-- The first worker that can go on. -/
def nextWorker? (p : Pool) : Option Nat := p.workers.findIdx? p.canStepWorker

/-- The next step of anybody: of the maker of the pool, of a call, or of a worker. -/
def next? (s : Session) : Option Action :=
  if s.pool.canStepCreation then some .creation
  else
    match s.pending.find? (isUseful s.pool) with
    | some call => some (.call call)
    | none => (nextWorker? s.pool).map .worker

/-- Goes on for at most `fuel` steps. -/
def run : Nat → Session → Session
  | 0, s => s
  | fuel + 1, s =>
    match s.next? with
    | none => s
    | some action => run fuel { s with pool := s.pool.step action }

/-- Steps that suffice until nobody can go on: each worker and each call has a bounded number of
steps before it waits, a submission lets a worker go round once more, and a call that frees a worker
or ends the reaping lets every other call go round once more. -/
def fuel (s : Session) : Nat :=
  256 * (s.pool.size + 1) * ((s.pending.length + 1) * (s.pending.length + 1))

/-- Goes on until nobody can, and forgets the calls that have returned. -/
def settle (s : Session) : Session :=
  let s := run s.fuel s
  { s with pending := s.pending.filter fun call =>
      ((s.pool.calls[call]?).map (!·.activity.isOver)).getD false }

/-- Makes a pool.  Its `creation` tells how that went. -/
def start (config : Config) (spawner : Nat → Except StartFailure (Option Payload.Inert)) :
    Session :=
  settle { pool := create config spawner }

/-- Makes a call. -/
def call (thread : Thread) (request : Request) (s : Session) : Session :=
  let pending := s.pending ++ [s.pool.calls.size]
  settle { pool := s.pool.step (.begin thread request), pending }

/-- The call made last. -/
def last? (s : Session) : Option Activity := (s.pool.calls.back?).map (·.activity)

/-- What became of a job that was handed in. -/
inductive Placement where
  | installed (worker : Nat)
  | blocked
  | refused
  /-- The caller unwound. -/
  | broken (payload : Payload)
  deriving DecidableEq, Repr, Inhabited

/-- Where a submission has come to. -/
def Placement.ofSubmission : Submission → Placement
  | .accepted index => .installed index
  | .nudging index _ => .installed index
  | .refused => .refused
  | .broken payload => .broken payload
  | _ => .blocked

/-- What became of a job. -/
def placement? (s : Session) (job : Nat) : Option Placement :=
  s.pool.calls.findSome? fun c =>
    match c.activity with
    | .submitting j submission => if j = job then some (.ofSubmission submission) else none
    | _ => none

/-- Hands in a job.  A submission that finds no idle worker is left to a thread of its own. -/
def submit (ending : Ending Unit) (gated : Bool) (s : Session) : Placement × Session :=
  let waits := s.pool.idle.isEmpty && !s.pool.control.isStopping
  let s := s.call (if waits then .submitter else .main) (.submit ending gated)
  match s.last? with
  | some (.submitting _ submission) => (.ofSubmission submission, s)
  | _ => (.blocked, s)

/-- The status of a job. -/
def jobStatus (s : Session) (job : Nat) : Job.Status :=
  ((s.pool.jobs[job]?).map (·.state.status)).getD .available

/-- The jobs that run, in the order of their numbers. -/
def running (s : Session) : List Nat :=
  (List.range s.pool.jobs.size).filter fun job => s.jobStatus job = .executing

/-- Lets the task of a job end. -/
def release (job : Nat) (s : Session) : Session :=
  settle { s with pool := s.pool.step (.release job) }

/-- Lets the tasks of all jobs that run end, one after the other; tells how many there were. -/
def releaseAll (s : Session) : Nat × Session :=
  (s.running.length, s.running.foldl (fun s job => s.release job) s)

/-- Signals the slot of a worker; tells whether that reached a thread. -/
def wake (index : Nat) (s : Session) : Bool × Session :=
  let s := s.call .main (.wake index)
  (s.last? == some (.nudging (.done true)), s)

/-- Stops the workers and joins them; tells whether that is done.  While jobs run it is left to a
thread of its own. -/
def reap (s : Session) : Bool × Session :=
  let waits := !s.running.isEmpty
  let s := s.call (if waits then .reaper else .main) .reap
  (s.last? == some (.reaping .returned), s)

/-- Lets the tasks of all jobs end, and then drops the pool. -/
def close (s : Session) : Session :=
  ((List.range s.pool.jobs.size).foldl (fun s job => s.release job) s).reap.2

end Session

end Interlock.Pool
