import Interlock.Job.Basic

/-!
# The course of a job

A worker that takes a fresh job follows one course through it, which only the ending of the task
decides.  The place on that course says what the shared state of the job is (`Phase.state`), so
that none of the checks on the way can fail: `Run.OnTrack.step_eq` computes each step.  The course
ends with the job completed, or breaks where the payload of an unwound task is dropped and unwinds.
-/

namespace Interlock.Job

/-- Whether a task that ends like this unwinds. -/
def unwinds : Ending Unit → Bool
  | .ok () => false
  | .error _ => true

namespace Phase

/-- The shared state of a job while its worker stands here. -/
def state (task : Ending Unit) : Phase → State
  | .beginning => {}
  | .entering => { status := .executing }
  | .inside => { status := .executing, active := 1 }
  | .finishing _ => { status := .executing, active := 1 }
  | .leaving _ => { status := .finishing, active := 1 }
  | .marking _ => { status := .finishing }
  | .reporting _ => { status := .finishing, panicked := true }
  | .discarding _ => { status := .finishing, panicked := true }
  | .counting => { status := .finishing, panicked := unwinds task }
  | .completing => { status := .finishing, panicked := unwinds task }
  | .done => { status := .completed, panicked := unwinds task }
  | .broken _ => { status := .finishing, panicked := true }

/-- Whether a worker comes past here when the task ends like that.  It gets past the payload only if
that can be dropped. -/
def Follows (task : Ending Unit) : Phase → Prop
  | .finishing ending => ending = task
  | .leaving ending => ending = task
  | .marking payload => task = .error payload
  | .reporting payload => task = .error payload
  | .discarding payload => task = .error payload
  | .counting => task.isClean = true
  | .completing => task.isClean = true
  | .done => task.isClean = true
  | .broken payload => task = .error (.bomb payload)
  | _ => True

/-- The place after this one. -/
def next (task : Ending Unit) : Phase → Phase
  | .beginning => .entering
  | .entering => .inside
  | .inside => .finishing task
  | .finishing ending => .leaving ending
  | .leaving (.ok ()) => .counting
  | .leaving (.error payload) => .marking payload
  | .marking payload => .reporting payload
  | .reporting payload => .discarding payload
  | .discarding (.bomb payload) => .broken payload
  | .discarding _ => .counting
  | .counting => .completing
  | .completing => .done
  | .done => .done
  | .broken payload => .broken payload

/-- The worker's count of jobs after the step that is due here. -/
def tally (jobsRun : Counter) : Phase → Counter
  | .counting => jobsRun.increment
  | _ => jobsRun

/-- What the step that is due here logs. -/
def lines (worker : Nat) : Phase → List Log.Line
  | .reporting payload =>
    [.error ("job panicked on worker " ++ toString worker ++ ": " ++ payload.describe)]
  | _ => []

/-- A step logs at most one line. -/
theorem reverse_lines (worker : Nat) (phase : Phase) :
    (phase.lines worker).reverse = phase.lines worker := by
  cases phase <;> rfl

theorem Follows.next {task : Ending Unit} {phase : Phase} (h : phase.Follows task) :
    (phase.next task).Follows task := by
  cases phase with
  | inside => rfl
  | leaving ending =>
    cases h
    cases task <;> trivial
  | discarding payload =>
    cases h
    cases payload <;> rfl
  | beginning | entering => trivial
  | _ => exact h

/-- A job is completed by the last step of its course only. -/
theorem status_state_eq_completed_iff {task : Ending Unit} {phase : Phase} :
    (phase.state task).status = .completed ↔ phase = .done := by
  cases phase <;> simp [state]

end Phase

namespace Run

/-- A worker that is on the course of its job. -/
structure OnTrack (task : Ending Unit) (r : Run) : Prop where
  follows : r.phase.Follows task
  state_eq : r.state = r.phase.state task

/-- The next step of a worker on course: no check fails. -/
theorem OnTrack.step_eq {task : Ending Unit} {r : Run} (h : r.OnTrack task) (worker : Nat) :
    r.step worker task =
      { phase := r.phase.next task
        state := (r.phase.next task).state task
        jobsRun := r.phase.tally r.jobsRun
        log := r.phase.lines worker ++ r.log } := by
  obtain ⟨phase, state, jobsRun, log⟩ := r
  obtain ⟨follows, state_eq⟩ := h
  dsimp only at follows state_eq
  subst state_eq
  cases phase with
  | leaving ending =>
    cases follows
    cases task <;> rfl
  | reporting payload | broken payload =>
    cases follows
    rfl
  | discarding payload =>
    cases follows
    cases payload <;> rfl
  | _ => rfl

theorem OnTrack.step {task : Ending Unit} {r : Run} (h : r.OnTrack task) (worker : Nat) :
    (r.step worker task).OnTrack task := by
  rw [h.step_eq worker]
  exact ⟨h.follows.next, rfl⟩

end Run

end Interlock.Job
