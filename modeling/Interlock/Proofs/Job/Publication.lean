import Mathlib.Data.Nat.Init
import Interlock.Proofs.Job.Course

/-!
# What is published about a job

Whoever holds a handle may read the job between any two steps of its worker.  The place on the
course says all that can be read then: the shared state (`Phase.state`), the worker's count of jobs
(`Phase.counted`) and the log (`Phase.reported`).  `Charted` holds of a run at its beginning and is
kept by each step; every step leads to a later place of the course, and there are eleven of these.
The last one is the end of the job, or the unwinding of a worker whom the payload took down.
-/

namespace Interlock.Job

namespace Phase

/-- The worker's count of jobs while it stands here, from the count it began with. -/
def counted (jobsRun : Counter) : Phase → Counter
  | .completing => jobsRun.increment
  | .done => jobsRun.increment
  | _ => jobsRun

/-- Whether the task of a worker that stands here is reported, should it have unwound. -/
def isReported : Phase → Bool
  | .discarding _ => true
  | .counting => true
  | .completing => true
  | .done => true
  | .broken _ => true
  | _ => false

/-- The line about a task that unwound. -/
def report (worker : Nat) : Ending Unit → List Log.Line
  | .ok () => []
  | .error payload =>
    [.error ("job panicked on worker " ++ toString worker ++ ": " ++ payload.describe)]

/-- What a worker that stands here has logged about its job. -/
def reported (worker : Nat) (task : Ending Unit) (phase : Phase) : List Log.Line :=
  if phase.isReported then report worker task else []

/-- The places on the course, counted from its beginning. -/
def place : Phase → Nat
  | .beginning => 0
  | .entering => 1
  | .inside => 2
  | .finishing _ => 3
  | .leaving _ => 4
  | .marking _ => 5
  | .reporting _ => 6
  | .discarding _ => 7
  | .counting => 8
  | .completing => 9
  | .done => 10
  | .broken _ => 10

/-- A step counts the job when its place says so. -/
theorem tally_counted (jobsRun : Counter) (task : Ending Unit) (phase : Phase) :
    phase.tally (phase.counted jobsRun) = (phase.next task).counted jobsRun := by
  cases phase with
  | leaving ending => cases ending <;> rfl
  | discarding payload => cases payload <;> rfl
  | _ => rfl

/-- A step reports the task when its place says so. -/
theorem lines_reported {task : Ending Unit} {phase : Phase} (h : phase.Follows task)
    (worker : Nat) :
    phase.lines worker ++ phase.reported worker task =
      (phase.next task).reported worker task := by
  cases phase with
  | leaving ending => cases h; cases task <;> rfl
  | reporting payload => cases h; rfl
  | discarding payload => cases payload <;> rfl
  | counting | completing | done | broken _ => rfl
  | _ => rfl

/-- Every step goes on by one place. -/
theorem place_next (task : Ending Unit) (phase : Phase) :
    min (phase.place + 1) 10 ≤ (phase.next task).place := by
  cases phase with
  | leaving ending => cases ending <;> simp [place, next]
  | discarding payload => cases payload <;> simp [place, next]
  | _ => simp [place, next]

/-- A task that leaves nothing dangerous behind takes its worker to the end of the course. -/
theorem Follows.eq_done {task : Ending Unit} {phase : Phase} (h : phase.Follows task)
    (clean : task.isClean = true) (far : 10 ≤ phase.place) : phase = .done := by
  cases phase with
  | broken payload =>
    cases h
    cases clean
  | done => rfl
  | _ => simp [place] at far

/-- One step leaves the status or moves it on by one. -/
theorem status_next (task : Ending Unit) (phase : Phase) :
    ((phase.next task).state task).status = (phase.state task).status ∨
      (phase.state task).status.allows ((phase.next task).state task).status = true := by
  cases phase with
  | leaving ending => cases ending <;> simp [state, next]
  | discarding payload => cases payload <;> simp [state, next]
  | _ => simp [state, next, Status.allows]

/-- At most one thread is inside the task, and none before or after: the count never wraps. -/
theorem active_state (task : Ending Unit) (phase : Phase) :
    (phase.state task).active ≤ 1 ∧
      ((phase.state task).status = .available ∨ (phase.state task).status = .completed →
        (phase.state task).active = 0) := by
  cases phase <;> simp [state]

end Phase

theorem Status.toByte_lt_of_allows {s t : Status} (h : s.allows t = true) :
    s.toByte.toNat < t.toByte.toNat := by
  cases s <;> cases t <;> simp_all [allows, toByte]

namespace Run

/-- A run on the course of its job that began with these books. -/
structure Charted (worker : Nat) (task : Ending Unit) (jobsRun : Counter) (log : List Log.Line)
    (r : Run) : Prop extends OnTrack task r where
  jobsRun_eq : r.jobsRun = r.phase.counted jobsRun
  log_eq : r.log = r.phase.reported worker task ++ log

section

variable {worker : Nat} {task : Ending Unit} {jobsRun : Counter} {log : List Log.Line} {r : Run}

theorem charted_start (worker : Nat) (task : Ending Unit) (jobsRun : Counter)
    (log : List Log.Line) : ({ jobsRun, log } : Run).Charted worker task jobsRun log where
  follows := trivial
  state_eq := rfl
  jobsRun_eq := rfl
  log_eq := rfl

/-- A run on its course stays there. -/
theorem Charted.step (h : r.Charted worker task jobsRun log) :
    (r.step worker task).Charted worker task jobsRun log where
  toOnTrack := h.toOnTrack.step worker
  jobsRun_eq := by
    rw [h.toOnTrack.step_eq worker, h.jobsRun_eq]
    exact r.phase.tally_counted jobsRun task
  log_eq := by
    rw [h.toOnTrack.step_eq worker, h.log_eq]
    show r.phase.lines worker ++ (r.phase.reported worker task ++ log) = _
    rw [← List.append_assoc, Phase.lines_reported h.follows]

theorem steps_succ (n : Nat) :
    r.steps worker task (n + 1) = (r.steps worker task n).step worker task := rfl

theorem Charted.steps (h : r.Charted worker task jobsRun log) (n : Nat) :
    (r.steps worker task n).Charted worker task jobsRun log := by
  induction n with
  | zero => exact h
  | succ n ih => exact ih.step

theorem Charted.phase_step (h : r.Charted worker task jobsRun log) :
    (r.step worker task).phase = r.phase.next task := by
  rw [h.toOnTrack.step_eq worker]

/-- A run that is over stands still. -/
theorem steps_of_done (h : r.phase = .done) (n : Nat) : r.steps worker task n = r := by
  induction n with
  | zero => rfl
  | succ n ih =>
    rw [steps_succ, ih, Run.step, h]

/-- Two runs in a row are one. -/
theorem steps_add (m n : Nat) :
    r.steps worker task (m + n) = (r.steps worker task m).steps worker task n := by
  induction n with
  | zero => rfl
  | succ n ih => rw [← Nat.add_assoc, steps_succ, ih, steps_succ]

/-- After enough steps a run is at its last place. -/
theorem Charted.place_steps (h : r.Charted worker task jobsRun log) (n : Nat) :
    min n 10 ≤ (r.steps worker task n).phase.place := by
  induction n with
  | zero => simp
  | succ n ih =>
    have later := Phase.place_next task (r.steps worker task n).phase
    rw [steps_succ, (h.steps n).phase_step]
    omega

/-- A run whose task leaves nothing that unwinds ends done. -/
theorem Charted.done (h : r.Charted worker task jobsRun log) (clean : task.isClean = true)
    {n : Nat} (enough : stepsAll ≤ n) : (r.steps worker task n).phase = .done := by
  have far := h.place_steps n
  have : 10 ≤ n := enough
  exact (h.steps n).follows.eq_done clean (by omega)

/-- A step leaves the status or moves it on by one. -/
theorem Charted.status_step (h : r.Charted worker task jobsRun log) :
    (r.step worker task).state.status = r.state.status ∨
      r.state.status.allows (r.step worker task).state.status = true := by
  rw [h.toOnTrack.step_eq worker, h.state_eq]
  exact Phase.status_next task r.phase

/-- The status never goes back. -/
theorem Charted.status_mono (h : r.Charted worker task jobsRun log) {m n : Nat} (before : m ≤ n) :
    (r.steps worker task m).state.status.toByte.toNat ≤
      (r.steps worker task n).state.status.toByte.toNat := by
  induction n, before using Nat.le_induction with
  | base => exact Nat.le_refl _
  | succ n _ ih =>
    refine Nat.le_trans ih ?_
    rw [steps_succ]
    obtain same | on := (h.steps n).status_step
    · exact Nat.le_of_eq (congrArg (·.toByte.toNat) same.symm)
    · exact Nat.le_of_lt (Status.toByte_lt_of_allows on)

theorem Charted.phase_of_completed (h : r.Charted worker task jobsRun log)
    (completed : r.state.status = .completed) : r.phase = .done := by
  rw [h.state_eq] at completed
  exact Phase.status_state_eq_completed_iff.1 completed

theorem Charted.counted (h : r.Charted worker task jobsRun log) :
    r.jobsRun = jobsRun ∨ r.jobsRun = jobsRun.increment := by
  rw [h.jobsRun_eq]
  cases r.phase <;> simp [Phase.counted]

/-- A job is reported at most once. -/
theorem Charted.reported (h : r.Charted worker task jobsRun log) :
    r.log = log ∨ r.log = Phase.report worker task ++ log := by
  rw [h.log_eq, Phase.reported]
  split
  · exact .inr rfl
  · exact .inl rfl

/-- All that can be read of a job that is over. -/
theorem Charted.books_of_done (h : r.Charted worker task jobsRun log) (done : r.phase = .done) :
    r.state = { status := .completed, panicked := unwinds task } ∧
      r.jobsRun = jobsRun.increment ∧ r.log = Phase.report worker task ++ log := by
  rw [h.state_eq, h.jobsRun_eq, h.log_eq, done]
  exact ⟨rfl, rfl, rfl⟩

/-- A worker unwinds out of its job only if the payload that it drops makes it. -/
theorem Charted.task_of_broken (h : r.Charted worker task jobsRun log) {payload : Payload}
    (broken : r.phase = .broken payload) : task = .error (.bomb payload) := by
  have follows := h.follows
  rwa [broken] at follows

end

/-- **Publication order.**  Whatever the task does, and whatever the worker counted and logged
before: read between any two steps of the worker, the status of its job only moves on along its
order, at most one thread is inside the task and none before or after, and the job is counted at
most once and reported at most once.  What is read together with or after the completed status is
final: the flag tells whether the task unwound, the job is counted, and the log has a line about it
exactly if the task unwound.  None of the worker's checks ever fails: it unwinds only with what
dropping the task's payload throws.  If the task leaves no such payload behind, the worker does not
unwind, and is done after all its steps. -/
theorem published_in_order (worker : Nat) (task : Ending Unit) (jobsRun : Counter)
    (log : List Log.Line) :
    let at_ (n : Nat) := ({ jobsRun, log } : Run).steps worker task n
    (∀ n, (at_ (n + 1)).state.status = (at_ n).state.status ∨
      (at_ n).state.status.allows (at_ (n + 1)).state.status = true) ∧
    (∀ m n, m ≤ n → (at_ m).state.status.toByte.toNat ≤ (at_ n).state.status.toByte.toNat) ∧
    (∀ n, (at_ n).state.active ≤ 1 ∧
      ((at_ n).state.status = .available ∨ (at_ n).state.status = .completed →
        (at_ n).state.active = 0)) ∧
    (∀ n, ((at_ n).jobsRun = jobsRun ∨ (at_ n).jobsRun = jobsRun.increment) ∧
      ((at_ n).log = log ∨ (at_ n).log = Phase.report worker task ++ log)) ∧
    (∀ m n, m ≤ n → (at_ m).state.status = .completed →
      (at_ n).state = { status := .completed, panicked := unwinds task } ∧
        (at_ n).jobsRun = jobsRun.increment ∧ (at_ n).log = Phase.report worker task ++ log) ∧
    (∀ n payload, (at_ n).phase = .broken payload → task = .error (.bomb payload)) ∧
    (task.isClean = true →
      (∀ n payload, (at_ n).phase ≠ .broken payload) ∧
      ∀ n, stepsAll ≤ n → (at_ n).phase = .done ∧ (at_ n).state.status = .completed) := by
  intro at_
  have charted (n : Nat) : (at_ n).Charted worker task jobsRun log :=
    (charted_start worker task jobsRun log).steps n
  refine ⟨fun n => (charted n).status_step,
    fun m n before => (charted_start worker task jobsRun log).status_mono before, fun n => ?_,
    fun n => ⟨(charted n).counted, (charted n).reported⟩, fun m n before completed => ?_,
    fun n payload => (charted n).task_of_broken, fun clean => ⟨fun n payload broken => ?_,
      fun n enough => ?_⟩⟩
  · rw [(charted n).state_eq]
    exact Phase.active_state task (at_ n).phase
  · obtain ⟨more, rfl⟩ := Nat.exists_eq_add_of_le before
    have done := (charted m).phase_of_completed completed
    have still : at_ (m + more) = at_ m := (steps_add m more).trans (steps_of_done done more)
    rw [still]
    exact (charted m).books_of_done done
  · rw [(charted n).task_of_broken broken] at clean
    cases clean
  · have done := (charted_start worker task jobsRun log).done clean enough
    exact ⟨done, congrArg (·.status) ((charted n).books_of_done done).1⟩

/-- The holder of a handle that finds a job completed, whose task unwound with a value that is no
message, finds it marked, counted and reported; here the count wraps around. -/
theorem published_in_order_of_wrapped :
    let r := ({ jobsRun := ⟨0xffffffffffffffff⟩ } : Run).steps 3 (.error .other) 10
    r.state.status = .completed ∧ r.state.panicked = true ∧ r.jobsRun = ⟨0⟩ ∧
      r.log = [.error "job panicked on worker 3: <non-string panic payload>"] := by
  intro r
  obtain ⟨-, -, -, -, final, -, tame⟩ :=
    published_in_order 3 (.error .other) ⟨0xffffffffffffffff⟩ []
  have completed : r.state.status = .completed := ((tame rfl).2 10 (by decide)).2
  obtain ⟨state, counted, reported⟩ := final 10 10 (by decide) completed
  refine ⟨completed, ?_, counted, reported⟩
  rw [show r.state = _ from state]
  rfl

end Run

end Interlock.Job
