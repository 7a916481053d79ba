import Interlock.Proofs.Job.Course
import Interlock.Proofs.Pool.View

/-!
# Sound pools

What holds of a pool in every state that a run reaches.  A worker's thread, its status and its
cell tell the same story (`Worker.Fits`, `Slots`); the indices on offer are those of the sleeping
workers, each once (`Offers`); every job is in one place (`Ledger`); one reaper at a time holds the
role (`Roles`).  The parts need each other: it is the queue that keeps a submitter from finding a
slot in use, the slots that keep a worker's moves legal, and the ledger that keeps a job from being
entered twice.
-/

namespace Interlock

/-! ## Slots -/

namespace Worker

/-- The status and the cell that go with the place of a worker's thread.  While the worker is on
offer, a submitter may have filled the cell. -/
def Phase.Allows : Phase → Status → Option Nat → Prop
  | .unborn, status, cell => (status = .notRunning ∨ status = .starting) ∧ cell = none
  | .attaching, status, cell => status = .starting ∧ cell = none
  | .announcing, status, cell | .checking, status, cell | .waiting, status, cell =>
    status = .sleeping ∧ cell = none ∨ status = .wakeRequested ∧ cell.isSome = true
  | .beginning _, status, cell => status = .awake ∧ cell = none
  | .running _ _, status, cell => status = .runningJob ∧ cell = none
  | .resting, status, cell => status = .runningJob ∧ cell = none
  | .detaching, status, cell => status = .sleeping ∧ cell = none
  | .reporting, status, cell => status = .notRunning ∧ cell = none
  | .ended _, status, cell => status = .notRunning ∧ cell = none

/-- A worker whose parts agree.  It detaches itself from the slot only when the pool stops, and
outside of a job its thread ends the way it was bound to end, and not by a check that failed. -/
structure Fits (stopping : Bool) (w : Worker) : Prop where
  allows : w.phase.Allows w.slot.status w.slot.cell
  stops : w.phase = .detaching → stopping = true
  ends : ∀ payload, w.phase = .ended payload → payload = w.exit.map Subtype.val

/-- The job in the worker's cell or in its hands. -/
def carried? (w : Worker) : Option Nat := w.slot.cell.or w.job?

/-- How far a worker has come with its job. -/
def course (w : Worker) : Job.Phase :=
  match w.phase with
  | .running _ phase => phase
  | _ => .beginning

end Worker

namespace Pool

/-- Every worker of a pool fits. -/
def Slots (p : Pool) : Prop :=
  ∀ (i : Nat) (w : Worker), p.workers[i]? = some w → w.Fits p.control.isStopping

/-- Whether the maker of a pool has nothing left to do but, at most, to undo its work. -/
def Creation.isSettled : Creation → Bool
  | .rollingBack .. => true
  | .dropping .. => true
  | .ready => true
  | .failed _ => true
  | _ => false

/-- The maker of a pool knows which threads it has not started, and none of its checks fails. -/
structure Making (p : Pool) : Prop where
  unborn : ∀ (i : Nat) (w : Worker), p.workers[i]? = some w → w.phase = .unborn →
    p.creation.unborn i = some w.slot.status
  born : ∀ (i : Nat) (w : Worker), p.workers[i]? = some w → w.phase ≠ .unborn →
    p.creation.unborn i = none
  current : ∀ i, p.creation.current? = some i → i < p.size
  unbroken : ∀ payload, p.creation ≠ .broken payload

/-- Calls begin when the pool has been made, and it stops only after its maker is through. -/
structure Ready (p : Pool) : Prop where
  called : ∀ (k : Nat) (c : Call), p.calls[k]? = some c → p.creation = .ready
  settled : p.control.isStopping = true → p.creation.isSettled = true

/-! ## The idle queue -/

/-- The indices on offer: each once, and of a worker that sleeps, or has left since the pool
stops.  Before the pool stops, every worker that sleeps is on offer. -/
structure Offers (stopping : Bool) (workers : List Worker) (offered : List Nat) : Prop where
  nodup : offered.Nodup
  sleeps : ∀ i, i ∈ offered → ∃ w, workers[i]? = some w ∧
    (w.slot.status = .sleeping ∨ stopping = true ∧ w.slot.status = .notRunning)
  complete : stopping = false → ∀ (i : Nat) (w : Worker), workers[i]? = some w →
    w.slot.status = .sleeping → i ∈ offered

/-! ## The ledger -/

/-- A worker with a job. -/
def Carries (p : Pool) (i job : Nat) : Prop :=
  ∃ w, p.workers[i]? = some w ∧ w.carried? = some job

/-- Every job is in one place: with its submission, then in a slot or in the hands of the slot's
worker, and then done. -/
structure Ledger (p : Pool) : Prop where
  /-- A job has one submission. -/
  known : ∀ k job slot?, p.Lodged k job slot? → job < p.jobs.size
  owned : ∀ job, job < p.jobs.size → ∃ k slot?, p.Lodged k job slot?
  single : ∀ k m job slot? slot?', p.Lodged k job slot? → p.Lodged m job slot?' → k = m
  sturdy : ∀ k job payload, ¬ p.Submits k job (.broken payload)
  /-- Before it is installed, and for ever if it is refused, a job is fresh and with no worker. -/
  fresh : ∀ k job, p.Lodged k job none →
    (∃ e : Entry, p.jobs[job]? = some e ∧ e.state = {}) ∧ ∀ i, ¬ p.Carries i job
  /-- Once it is installed, its worker has it until it is completed. -/
  placed : ∀ k job i, p.Lodged k job (some i) →
    p.Carries i job ∨ ∃ e : Entry, p.jobs[job]? = some e ∧ e.state.status = .completed
  /-- A worker has only what was installed in its own slot. -/
  carried : ∀ i job, p.Carries i job → ∃ k, p.Lodged k job (some i)
  /-- A job that a worker has is as far as the worker has come. -/
  course : ∀ (i : Nat) (w : Worker) (job : Nat), p.workers[i]? = some w → w.carried? = some job →
    ∃ e : Entry, p.jobs[job]? = some e ∧ w.course.Follows e.ending ∧
      e.state = w.course.state e.ending

/-! ## The reaper's role -/

/-- Whether a reaper holds the role.  One that unwound holds it for good. -/
def Reaping.hasRole : Reaping → Bool
  | .rechecking => true
  | .cancelling => true
  | .broadcasting => true
  | .nudging .. => true
  | .collecting => true
  | .joining .. => true
  | .draining _ => true
  | .marking _ => true
  | .yielding _ => true
  | .broken _ => true
  | _ => false

/-- What the flags, and the handles that nobody has taken, say when a reaper stands here. -/
def Reaping.Fits (control : Control) (handles : List Nat) : Reaping → Prop
  | .arriving | .stopping => True
  | .claiming | .awaiting | .asleep | .rechecking => control.isStopping = true
  | .broadcasting | .collecting => control.isStopping = true ∧ control.isReaped = false
  | .nudging i n =>
    (control.isStopping = true ∧ control.isReaped = false) ∧ (n = .looking i ∨ n = .notifying i)
  | .joining .. | .draining _ | .marking _ | .broken _ =>
    (control.isStopping = true ∧ control.isReaped = false) ∧ handles = []
  | .cancelling | .yielding _ | .publishing _ | .reporting _ | .returned =>
    control.isReaped = true

/-- The reapers of a pool: one of them at most holds the role, and one does exactly when the flag
says so. -/
structure Roles (p : Pool) (reapers : List Reaping) : Prop where
  role : reapers.countP (·.hasRole) = p.control.isReaping.toNat
  fits : ∀ r ∈ reapers, r.Fits p.control p.handles
  stops : p.control.isReaped = true → p.control.isStopping = true
  told : p.reaped = true → p.control.isReaped = true

/-- What every run keeps. -/
structure Sound (p : Pool) : Prop where
  slots : p.Slots
  making : p.Making
  ready : p.Ready
  offers : Offers p.control.isStopping p.workers p.offered
  ledger : p.Ledger
  roles : p.Roles p.reapers

end Pool

end Interlock
