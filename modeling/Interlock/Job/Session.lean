import Interlock.Condition.Waiting
import Interlock.Job.Basic

/-!
# Waiting for a job

The holder of a handle looks at a job and waits for its completion.  While it waits, a worker may
run the job; publishing the job as completed wakes everybody who waits for it.
-/

namespace Interlock.Job

/-- A job with its worker and the holder of its handle. -/
structure Session where
  worker : Nat
  /-- How the task ends. -/
  task : Ending Unit
  state : State := {}
  jobsRun : Counter := {}
  /-- Whether a worker has taken the job. -/
  taken : Bool := false
  /-- The handle as it was seen from inside the task. -/
  inside : List String := []
  /-- What was logged, latest first. -/
  log : List Log.Line := []
  deriving Inhabited

namespace Session

/-- The worker runs the job to its end, once; its completion wakes everybody who waits. -/
def run (s : Session) : Session × List Condition.Call :=
  if s.taken then (s, [])
  else
    let entered := ({ state := s.state, jobsRun := s.jobsRun, log := s.log } : Run).steps s.worker
      s.task Run.stepsIn
    let ended := entered.toEnd s.worker s.task
    ({ s with
        state := ended.state
        jobsRun := ended.jobsRun
        taken := true
        inside := if entered.isInside then s.inside ++ [entered.state.render] else s.inside
        log := ended.log },
      if ended.state.status.isCompleted then [.notifyAll] else [])

/-- Whether the job is completed. -/
def ready (s : Session) : Bool × Session := (s.state.status.isCompleted, s)

/-- What happens during a wait for a job: the job may be run. -/
def event (runs timedOut : Bool) : Condition.Event Session where
  act s := if runs then s.run else (s, [])
  timedOut := timedOut

/-- Waits for the job. -/
def wait (events : List (Condition.Event Session)) (s : Session) : Condition.Waited Session :=
  Condition.lockWhen ready events s

/-- Waits for the job, but not longer than `timeout`. -/
def waitTimeout (now : Instant) (timeout : Duration) (events : List (Condition.Event Session))
    (s : Session) : Condition.Waited Session :=
  Condition.lockWhenTimeout now timeout ready events s

end Session

end Interlock.Job
