import Interlock.Counter
import Interlock.Job.Status
import Interlock.Log
import Interlock.Payload

/-!
# Running a job

A job runs its task once.  Its worker moves it along step by step, and whoever holds a handle may
look between any two of them: the books (the flag for an unwound task and the worker's count of
jobs) are closed before the job is published as completed.  In between the payload of an unwound
task is dropped, outside of what catches it: a payload whose destructor unwinds takes the worker
down with the job finishing, and neither counted nor completed.
-/

namespace Interlock.Job

/-- What a worker and the holders of a handle share. -/
structure State where
  status : Status := .available
  /-- Threads inside the task, at most one. -/
  active : Nat := 0
  /-- Whether the task unwound; final once the job is completed. -/
  panicked : Bool := false
  deriving DecidableEq, Repr, Inhabited

/-- The handle as it is shown. -/
def State.render (s : State) : String :=
  "JobHandle \x7b status: " ++ s.status.render ++ ", panicked: " ++ toString s.panicked ++ " \x7d"

/-- Where a worker stands in running a job; each name says what the next step does. -/
inductive Phase where
  /-- Moving the job to executing. -/
  | beginning
  /-- Counting itself in. -/
  | entering
  /-- Running the task. -/
  | inside
  /-- Moving the job to finishing; the task has ended like this. -/
  | finishing (ending : Ending Unit)
  /-- Counting itself out. -/
  | leaving (ending : Ending Unit)
  /-- Marking the job as unwound. -/
  | marking (payload : Payload)
  /-- Logging that it was. -/
  | reporting (payload : Payload)
  /-- Dropping the payload. -/
  | discarding (payload : Payload)
  /-- Counting the job for the worker. -/
  | counting
  /-- Publishing the job as completed. -/
  | completing
  /-- The job has been run. -/
  | done
  /-- A check failed or dropping the payload did, and the worker unwinds. -/
  | broken (payload : Payload)
  deriving Inhabited

/-- A worker in the middle of a job: where it stands, the job, its own count of jobs, and what was
logged, latest first. -/
structure Run where
  phase : Phase := .beginning
  state : State := {}
  jobsRun : Counter := {}
  log : List Log.Line := []
  deriving Inhabited

namespace Run

/-- A failed check: it is logged, and the worker unwinds. -/
def fail (text : String) (r : Run) : Run :=
  { r with phase := .broken (.text text), log := .error text :: r.log }

/-- Moves the job, or fails. -/
def advance (source target : Status) (next : Phase) (r : Run) : Run :=
  match r.state.status.move source target with
  | .ok status => { r with state.status := status, phase := next }
  | .error m => r.fail m.message

/-- The text of the check that a job has one worker. -/
def crowded (threads : Nat) : String := "job entered by " ++ toString threads ++ " threads at once"

/-- Takes the worker one step on; `task` is how the task ends. -/
def step (worker : Nat) (task : Ending Unit) (r : Run) : Run :=
  match r.phase with
  | .beginning => r.advance .available .executing .entering
  | .entering =>
    let entered := { r with state.active := r.state.active + 1 }
    if r.state.active = 0 then { entered with phase := .inside }
    else entered.fail (crowded (r.state.active + 1))
  | .inside => { r with phase := .finishing task }
  | .finishing ending => r.advance .executing .finishing (.leaving ending)
  | .leaving ending =>
    { r with
      state.active := r.state.active - 1
      phase := match ending with
        | .ok () => .counting
        | .error payload => .marking payload }
  | .marking payload => { r with state.panicked := true, phase := .reporting payload }
  | .reporting payload =>
    { r with
      phase := .discarding payload
      log := .error ("job panicked on worker " ++ toString worker ++ ": " ++ payload.describe)
        :: r.log }
  | .discarding payload =>
    { r with
      phase := match payload.drop with
        | .ok () => .counting
        | .error next => .broken next }
  | .counting => { r with jobsRun := r.jobsRun.increment, phase := .completing }
  | .completing => r.advance .finishing .completed .done
  | .done => r
  | .broken _ => r

/-- Whether the worker is in the task. -/
def isInside (r : Run) : Bool :=
  match r.phase with
  | .inside => true
  | _ => false

/-- Whether the worker is through with the job, one way or the other. -/
def isOver (r : Run) : Bool :=
  match r.phase with
  | .done => true
  | .broken _ => true
  | _ => false

/-- Takes `n` steps. -/
def steps (worker : Nat) (task : Ending Unit) (n : Nat) (r : Run) : Run :=
  n.repeat (step worker task) r

/-- Steps from the beginning into the task. -/
def stepsIn : Nat := 2

/-- Steps that take a worker from anywhere to the end of a job. -/
def stepsAll : Nat := 10

/-- Runs the job to its end. -/
def toEnd (worker : Nat) (task : Ending Unit) (r : Run) : Run := r.steps worker task stepsAll

end Run

end Interlock.Job
