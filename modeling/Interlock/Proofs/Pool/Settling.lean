import Interlock.Pool.Session
import Interlock.Proofs.Job.Publication
import Interlock.Proofs.Pool.Progress
import Mathlib.Algebra.BigOperators.Group.List.Basic
import Mathlib.Algebra.Order.BigOperators.Group.List
import Mathlib.Algebra.Order.Group.Nat
import Mathlib.Logic.Relation
import Mathlib.Tactic.Linarith

/-!
# Everybody comes to rest

Once a pool is made, everybody who goes on by the rules of a session comes to rest: each step costs
some of the effort that remains to the workers, to the pending calls, and for the idle queue and the
handles (`effort_lt`).  Some steps stir up other calls: the last idle worker is taken in front of
those who are about to look for one, or the end of the reaping is told to those who wait for it.
The price of a step is such that it covers this.  The effort at the beginning is bounded by the fuel
of the session, so that nobody can go on when a session has settled (`Session.Proper.next?_run`).
-/

namespace Interlock

/-- The effort that a step needs if it may stir up `n` calls. -/
def price (n : Nat) : Nat := 8 * (n + 1)

/-! ## The effort -/

/-- The effort that remains to a worker's thread; it pays for its way back into the idle queue. -/
def Worker.Phase.effort (n : Nat) : Worker.Phase → Nat
  | .unborn => price n + 7
  | .attaching => price n + 6
  | .announcing => 5
  | .checking => 4
  | .waiting => 3
  | .beginning _ => price n + 18
  | .running _ phase => price n + 17 - phase.place
  | .resting => price n + 6
  | .detaching => 2
  | .reporting => 1
  | .ended _ => 0

/-- The effort that remains to a worker, the job in its cell included. -/
def Worker.effort (n : Nat) (w : Worker) : Nat :=
  w.phase.effort n + if w.slot.cell.isSome then price n + 18 else 0

/-- Whatever a worker is doing, it has a bounded number of steps left. -/
theorem Worker.effort_le (n : Nat) (w : Worker) : w.effort n ≤ 2 * price n + 36 := by
  have phase : w.phase.effort n ≤ price n + 18 := by
    cases w.phase <;> simp only [Worker.Phase.effort] <;> omega
  unfold Worker.effort
  split <;> omega

namespace Pool

open Relation (ReflTransGen)

/-- The effort that remains to a submission; it pays for the worker's way with the job. -/
def Submission.effort (n : Nat) (p : Pool) : Submission → Nat
  | .arriving _ =>
    if p.control.isStopping then 1 else price n + if p.idle.isEmpty then 31 else 27
  | .popping _ => price n + if p.idle.isEmpty then 30 else 26
  | .counting => price n + 29
  | .parking => price n + 28
  | .holding _ => price n + 25
  | .nudging _ m => 2 * m.remaining
  | _ => 0

/-- The effort that remains to a reaper. -/
def Reaping.effort (n size : Nat) : Reaping → Nat
  | .awaiting => 1
  | r => price n * r.remaining size

/-- The effort that remains to a call. -/
def Activity.effort (n : Nat) (p : Pool) : Activity → Nat
  | .submitting _ s => s.effort n p
  | .reaping r => r.effort n p.size
  | .nudging m => 2 * m.remaining

/-- The effort that remains to a call, given by its number. -/
def callEffort (n : Nat) (p : Pool) (k : Nat) : Nat :=
  ((p.calls[k]?).map (·.activity.effort n p)).getD 0

/-- The effort that remains to all workers. -/
def workerEffort (n : Nat) (p : Pool) : Nat := (p.workers.map (·.effort n)).sum

/-- The effort that remains until nobody can go on, if these calls are pending.  Each entry of the
idle queue and each handle may cost a step. -/
def effort (pending : List Nat) (p : Pool) : Nat :=
  p.workerEffort pending.length + (pending.map (p.callEffort pending.length)).sum +
    price pending.length * (p.idle.length + p.handles.length)

variable {config : Config} {spawner : Nat → Except StartFailure (Option Payload.Inert)}
  {p q : Pool} {log : Array (Thread × Log.Line)} {n : Nat}

/-! ## What others do -/

theorem workerEffort_put {i : Nat} {w : Worker} (hw : p.workers[i]? = some w) (x : Worker) :
    (p.putWorker i x).workerEffort n + w.effort n = p.workerEffort n + x.effort n :=
  sum_putWorker (·.effort n) hw x

/-- Whoever is notified at a slot looks once more. -/
theorem workerEffort_notify (p : Pool) (i : Nat) :
    (p.notify i).workerEffort n ≤ p.workerEffort n + 1 := by
  cases hw : p.workers[i]? with
  | none =>
    have same : (p.notify i).workers = p.workers := by
      simp [notify, updateWorker, List.modify_eq_set_getElem?, hw]
    simp [workerEffort, same]
  | some w =>
    have put : (p.notify i).workerEffort n = (p.putWorker i w.notified).workerEffort n := by
      rw [← updateWorker_eq hw]
      rfl
    have sum := workerEffort_put (n := n) hw w.notified
    have one : w.notified.effort n ≤ w.effort n + 1 := by
      rw [Worker.effort, Worker.effort, slot_notified]
      rcases phase_notified w with ⟨waiting, checking⟩ | ⟨-, same⟩
      · rw [waiting, checking]
        simp only [Worker.Phase.effort]
        omega
      · rw [same]
        omega
    omega

/-- Signalling a slot costs the workers one step at most. -/
theorem NudgeMove.workerEffort_le {m m' : Nudge} (h : NudgeMove p m m' q) :
    q.workerEffort n ≤ p.workerEffort n + 1 := by
  cases h with
  | notify => exact workerEffort_notify p _
  | look | miss | stay => exact Nat.le_succ _

/-- A step of a teardown costs the workers one step at most. -/
theorem ReapingMove.workerEffort_le {r r' : Reaping} (h : ReapingMove p log r r' q) :
    q.workerEffort n ≤ p.workerEffort n + 1 := by
  cases h with
  | nudge m => exact m.workerEffort_le
  | _ => exact Nat.le_succ _

/-- The effort of a submission gets no bigger while the queue is not emptied. -/
theorem Submission.effort_le (s : Submission) (stops : p.control.isStopping = true →
      q.control.isStopping = true) (empties : q.idle = [] → p.idle = []) :
    s.effort n q ≤ s.effort n p := by
  have idle : q.idle.isEmpty = true → p.idle.isEmpty = true := by
    simpa only [List.isEmpty_iff] using empties
  cases s with
  | arriving =>
    simp only [Submission.effort]
    grind
  | popping =>
    simp only [Submission.effort]
    grind
  | _ => exact Nat.le_refl _

/-- Else it gets bigger by the steps of another round. -/
theorem Submission.effort_le_add (s : Submission) (stops : p.control.isStopping = true →
      q.control.isStopping = true) : s.effort n q ≤ s.effort n p + 4 := by
  cases s with
  | arriving =>
    simp only [Submission.effort]
    grind
  | popping =>
    simp only [Submission.effort]
    grind
  | _ => exact Nat.le_add_right _ _

section Others

variable {k : Nat} (size : q.size = p.size)
  (stops : p.control.isStopping = true → q.control.isStopping = true)

include size stops

/-- A call that stays as it is has no more steps left, unless the queue ran empty. -/
theorem callEffort_le (empties : q.idle = [] → p.idle = []) (same : q.calls[k]? = p.calls[k]?) :
    q.callEffort n k ≤ p.callEffort n k := by
  rw [callEffort, callEffort, same]
  cases p.calls[k]? with
  | none => exact Nat.le_refl _
  | some c =>
    show c.activity.effort n q ≤ c.activity.effort n p
    cases c.activity with
    | submitting job s => exact s.effort_le stops empties
    | reaping r => exact (congrArg (r.effort n) size).le
    | nudging => exact Nat.le_refl _

/-- A call that stays as it is or is roused has a few steps more left at most. -/
theorem callEffort_le_add
    (same : q.calls[k]? = p.calls[k]? ∨ q.calls[k]? = (p.calls[k]?).map Call.roused) :
    q.callEffort n k ≤ p.callEffort n k + 4 := by
  unfold callEffort
  cases hc : p.calls[k]? with
  | none =>
    rw [hc, Option.map_none, or_self] at same
    rw [same]
    exact Nat.le_add_right _ _
  | some c =>
    have activity (s : Submission) : s.effort n q ≤ s.effort n p + 4 := s.effort_le_add stops
    rw [hc, Option.map_some] at same
    rcases same with same | roused
    · rw [same]
      show c.activity.effort n q ≤ c.activity.effort n p + 4
      cases c.activity with
      | submitting job s => exact activity s
      | reaping r =>
        simp only [Activity.effort, size]
        exact Nat.le_add_right _ _
      | nudging => exact Nat.le_add_right _ _
    · rw [roused]
      show c.roused.activity.effort n q ≤ c.activity.effort n p + 4
      unfold Call.roused
      split
      · next asleep =>
        rw [asleep]
        simp [Activity.effort, Reaping.effort]
      · cases c.activity with
        | submitting job s => exact activity s
        | reaping r =>
          simp only [Activity.effort, size]
          exact Nat.le_add_right _ _
        | nudging => exact Nat.le_add_right _ _

end Others

/-! ## What a step costs -/

/-- The job of a worker is nearer to its end after each step. -/
theorem effort_phaseAfter {task : Ending Unit} {job : Nat} {phase : Job.Phase}
    (alive : ∀ payload, phase ≠ .broken payload) :
    (phaseAfter job (phase.next task)).effort n < (Worker.Phase.running job phase).effort n := by
  have place := Job.Phase.place_next task phase
  by_cases through : phase = .done
  · subst through
    simp only [Job.Phase.next, phaseAfter, Worker.Phase.effort, Job.Phase.place]
    omega
  have short : phase.place < 10 := by
    cases phase <;> simp_all [Job.Phase.place]
  generalize phase.next task = next at place
  cases next with
  | done =>
    simp only [phaseAfter, Worker.Phase.effort]
    omega
  | _ =>
    simp only [phaseAfter, Worker.Phase.effort, Job.Phase.place] at place short ⊢
    omega

/-- A worker's step costs some of its own effort, even if it puts the worker into the queue. -/
theorem WorkerMove.effort_lt {i : Nat} {w : Worker} (hp : p.Sound) (hw : p.workers[i]? = some w)
    (m : WorkerMove p log i w q) :
    q.workerEffort n + price n * (q.idle.length + q.handles.length) <
        p.workerEffort n + price n * (p.idle.length + p.handles.length) ∧
      (q.idle = [] → p.idle = []) := by
  -- the worker goes on to stand as `x`, and the queue gets no shorter
  have goes {s : Pool} (x : Worker) (hworkers : s.workers = p.workers.set i x)
      (hhandles : s.handles = p.handles) (hidle : p.idle.length ≤ s.idle.length)
      (less : x.effort n + price n * s.idle.length < w.effort n + price n * p.idle.length) :
      s.workerEffort n + price n * (s.idle.length + s.handles.length) <
          p.workerEffort n + price n * (p.idle.length + p.handles.length) ∧
        (s.idle = [] → p.idle = []) := by
    have sum := workerEffort_put (n := n) hw x
    have same : s.workerEffort n = (p.putWorker i x).workerEffort n := by
      simp only [workerEffort, hworkers, putWorker]
    refine ⟨?_, fun none => ?_⟩
    · rw [same, hhandles, Nat.mul_add, Nat.mul_add]
      omega
    · rw [none] at hidle
      exact List.length_eq_zero_iff.1 (Nat.le_zero.1 hidle)
  have allows := (hp.slots i w hw).allows
  cases m with
  | attach hphase | rest hphase =>
    refine goes _ rfl rfl (by simp) ?_
    simp only [Worker.effort, hphase, Worker.Phase.effort, List.length_append,
      List.length_singleton, Nat.mul_add, Nat.mul_one]
    omega
  | announce hphase | leave hphase | wait hphase | detach hphase | report hphase =>
    refine goes _ rfl rfl (Nat.le_refl _) ?_
    simp only [Worker.effort, hphase, Worker.Phase.effort, putWorker]
    omega
  | take hphase hcell =>
    refine goes _ rfl rfl (Nat.le_refl _) ?_
    simp only [Worker.effort, hphase, hcell, Worker.Phase.effort, putWorker, Option.isSome_some,
      Option.isSome_none, if_true, Bool.false_eq_true, if_false]
    omega
  | start hphase =>
    refine goes _ rfl rfl (Nat.le_refl _) ?_
    simp only [Worker.effort, hphase, Worker.Phase.effort, putWorker, Job.Phase.place]
    omega
  | @work job phase e hphase hgoes hjob =>
    refine goes _ rfl rfl (Nat.le_refl _) ?_
    have nearer : (phaseAfter job (phase.next e.ending)).effort n <
        (Worker.Phase.running job phase).effort n := by
      refine effort_phaseAfter fun payload broken => ?_
      rw [broken] at hphase
      simp [Worker.ended?, hphase] at hgoes
    simp only [Worker.effort, hphase, putWorker]
    omega

section Calls

variable {pending : List Nat} {k : Nat}

/-- What a call has left after a step is told by where it stands then. -/
theorem callEffort_putCall {c : Call} (hq : (q.calls[k]?).isSome) :
    (q.putCall k c).callEffort n k = c.activity.effort n q := by
  obtain ⟨x, hx⟩ := Option.isSome_iff_exists.1 hq
  rw [callEffort, getElem?_putCall_self hx]
  rfl

theorem callEffort_putCall_of_ne {c : Call} {m : Nat} (other : m ≠ k) :
    (q.putCall k c).callEffort n m = q.callEffort n m := by
  rw [callEffort, getElem?_putCall_of_ne other]
  rfl

/-- A step that takes a pending call on to stand as `c` costs effort, if the call's own part covers
what the step stirs up. -/
theorem effort_putCall_lt (nodup : pending.Nodup) (hk : k ∈ pending)
    (hq : (q.calls[k]?).isSome) {c : Call} (raise : Nat)
    (others : ∀ m, m ≠ k →
      q.callEffort pending.length m ≤ p.callEffort pending.length m + raise)
    (less : q.workerEffort pending.length + c.activity.effort pending.length q +
          price pending.length * (q.idle.length + q.handles.length) + raise * pending.length <
        p.workerEffort pending.length + p.callEffort pending.length k +
          price pending.length * (p.idle.length + p.handles.length)) :
    (q.putCall k c).effort pending < p.effort pending := by
  have before := List.sum_map_erase (p.callEffort pending.length) hk
  have after := List.sum_map_erase ((q.putCall k c).callEffort pending.length) hk
  have rest : ((pending.erase k).map ((q.putCall k c).callEffort pending.length)).sum ≤
      ((pending.erase k).map fun m => p.callEffort pending.length m + raise).sum := by
    refine List.sum_le_sum fun m hm => ?_
    have other := (nodup.mem_erase_iff.1 hm).1
    rw [callEffort_putCall_of_ne other]
    exact others m other
  have constant : ((pending.erase k).map fun _ => raise).sum ≤ raise * pending.length := by
    rw [List.map_const', List.sum_replicate_nat, Nat.mul_comm]
    exact Nat.mul_le_mul_left _ List.length_erase_le
  rw [List.sum_map_add] at rest
  rw [callEffort_putCall hq] at after
  unfold effort
  show (q.workerEffort _) + _ + price _ * (q.idle.length + q.handles.length) < _
  omega

/-- What a step in signalling a slot costs. -/
theorem NudgeMove.effort_lt {m m' : Nudge} (h : NudgeMove p m m' q)
    (going : (Activity.nudging m).isOver = false) :
    q.workerEffort n + 2 * m'.remaining < p.workerEffort n + 2 * m.remaining := by
  have workers := h.workerEffort_le (n := n)
  cases h with
  | look | miss =>
    simp only [Nudge.remaining]
    omega
  | notify =>
    simp only [Nudge.remaining]
    omega
  | stay => cases going

/-- What a step of a submission costs.  It may stir up the others, for which it pays, if it empties
the idle queue. -/
theorem SubmissionMove.effort_lt {job : Nat} {s s' : Submission} (hp : p.Sound)
    (m : SubmissionMove p log job s s' q) (going : (Activity.submitting job s).isOver = false)
    (free : s = .parking → p.idle ≠ [] ∨ p.control.isStopping = true) :
    ∃ raise, (raise = 4 ∨ raise = 0 ∧ (q.idle = [] → p.idle = [])) ∧
      q.workerEffort n + s'.effort n q + price n * (q.idle.length + q.handles.length) + raise * n <
        p.workerEffort n + s.effort n p + price n * (p.idle.length + p.handles.length) := by
  cases m with
  | refuse hstop =>
    refine ⟨0, .inr ⟨rfl, id⟩, ?_⟩
    simp only [Submission.effort, hstop, if_true]
    omega
  | enter hstop =>
    refine ⟨0, .inr ⟨rfl, id⟩, ?_⟩
    simp only [Submission.effort, hstop, Bool.false_eq_true, if_false]
    split <;> omega
  | @pop waited i idle hidle =>
    refine ⟨4, .inl rfl, ?_⟩
    show p.workerEffort n + _ + price n * (idle.length + p.handles.length) + _ < _
    simp only [Submission.effort, hidle, List.isEmpty_cons, List.length_cons, price, Nat.mul_add]
    simp only [Bool.false_eq_true, if_false]
    omega
  | @full waited hidle =>
    refine ⟨0, .inr ⟨rfl, id⟩, ?_⟩
    cases waited <;> simp [Submission.effort, hidle]
  | count =>
    refine ⟨0, .inr ⟨rfl, id⟩, ?_⟩
    show p.workerEffort n + _ + price n * (p.idle.length + p.handles.length) + _ < _
    simp only [Submission.effort]
    omega
  | retry =>
    refine ⟨0, .inr ⟨rfl, id⟩, ?_⟩
    have free := free rfl
    simp only [Submission.effort]
    split
    · omega
    · next running =>
      have some := free.resolve_right running
      rw [if_neg (by simpa using some)]
      omega
  | @giveBack i hstop =>
    refine ⟨0, .inr ⟨rfl, by simp⟩, ?_⟩
    show p.workerEffort n + _ + price n * ((p.idle ++ [i]).length + p.handles.length) + _ < _
    simp only [Submission.effort, List.length_append, List.length_singleton, Nat.mul_add,
      Nat.mul_one]
    omega
  | @install i w hw hstop sleeps =>
    refine ⟨0, .inr ⟨rfl, id⟩, ?_⟩
    have empty : w.slot.cell.isSome = false := by
      rw [Bool.eq_false_iff, ne_eq, fits_filled (hp.slots i w hw), sleeps]
      decide
    have sum := workerEffort_put (n := n) hw
      { w with slot := { w.slot with status := .wakeRequested, cell := some job } }
    show (p.putWorker i _).workerEffort n + _ + price n * (p.idle.length + p.handles.length) + _ < _
    simp only [Worker.effort, empty, Option.isSome_some, if_true, Bool.false_eq_true,
      if_false] at sum
    simp only [Submission.effort, Nudge.remaining]
    omega
  | @nudge i m m' q h =>
    refine ⟨0, .inr ⟨rfl, fun none => h.idle_eq ▸ none⟩, ?_⟩
    have workers := h.workerEffort_le (n := n)
    rw [h.idle_eq, h.handles_eq]
    cases h with
    | look | miss =>
      simp only [Submission.afterNudge, Submission.effort, Nudge.remaining]
      omega
    | notify =>
      simp only [Submission.afterNudge, Submission.effort, Nudge.remaining]
      omega
    | stay =>
      simp only [Submission.afterNudge, Submission.effort, Nudge.remaining]
      omega
  | stay finished =>
    rw [finished] at going
    cases going

/-- A teardown needs at most a fixed price for each of the steps that it has left. -/
theorem Reaping.effort_le (n size : Nat) (r : Reaping) :
    r.effort n size ≤ price n * r.remaining size := by
  cases r with
  | awaiting =>
    simp only [Reaping.effort, Reaping.remaining, price]
    omega
  | _ => exact Nat.le_refl _

/-- What a step of a reaper costs.  It may stir up the others, for which it pays, by taking the last
entry off the idle queue or by telling them that it is done. -/
theorem ReapingMove.effort_lt {r r' : Reaping} (m : ReapingMove p log r r' q)
    (moves : r' ≠ r ∨ q.idle ≠ p.idle) :
    (r = .awaiting ∧ q = p ∧ r'.effort n p.size = 0) ∨
      q.workerEffort n + r'.effort n p.size + price n * (q.idle.length + q.handles.length) + 4 * n <
        p.workerEffort n + r.effort n p.size + price n * (p.idle.length + p.handles.length) := by
  have workers := m.workerEffort_le (n := n)
  have capped := r'.effort_le n p.size
  by_cases waits : r = .awaiting
  · subst waits
    left
    cases m with
    | told | sleep => exact ⟨rfl, rfl, by simp [Reaping.effort, Reaping.remaining]⟩
    | stay => simp at moves
  · right
    have exact_price : r.effort n p.size = price n * r.remaining p.size := by
      cases r <;> first | rfl | exact absurd rfl waits
    rcases m.remaining with less | ⟨rfl, rfl⟩
    · have paid := Nat.mul_le_mul_left (price n) (Nat.succ_le_of_lt less)
      simp only [Nat.succ_eq_add_one, Nat.mul_add, Nat.mul_one] at paid
      simp only [Nat.mul_add] at *
      have covers : 4 * n + 1 < price n := by
        unfold price
        omega
      omega
    · simp at moves

theorem callEffort_of_get {c : Call} (hc : p.calls[k]? = some c) :
    p.callEffort n k = c.activity.effort n p := by
  rw [callEffort, hc]
  rfl

/-- A useful step of a pending call costs effort. -/
theorem Sound.effort_lt_call (h : p.Sound) (nodup : pending.Nodup) (hk : k ∈ pending)
    (useful : Session.isUseful p k = true) :
    (p.step (.call k)).effort pending < p.effort pending := by
  obtain ⟨c, hc⟩ : ∃ c, p.calls[k]? = some c := by
    cases hc : p.calls[k]? with
    | none => simp [Session.isUseful, hc] at useful
    | some c => exact ⟨c, rfl⟩
  simp only [Session.isUseful, hc] at useful
  cases hs : c.activity with
  | submitting job s =>
    have going : (Activity.submitting job s).isOver = false := by
      cases s <;> first | rfl | simp [hs, canStepCall, Activity.isOver] at useful
    have free (parks : s = .parking) : p.idle ≠ [] ∨ p.control.isStopping = true := by
      simpa [hs, parks] using useful
    obtain ⟨-, m⟩ := h.move_submission c.thread (⟨c, hc, hs⟩ : p.Submits k job s)
    rw [step_submitting hc hs]
    obtain ⟨raise, either, less⟩ := m.effort_lt (n := pending.length) h going free
    have size := m.size_eq
    have stops := congrArg Control.isStopping m.control_eq
    refine effort_putCall_lt nodup hk (by simp [m.calls_eq, hc]) raise (fun j other => ?_) ?_
    · have same := congrArg (·[j]?) m.calls_eq
      rcases either with rfl | ⟨rfl, empties⟩
      · exact callEffort_le_add size stops.ge (.inl same)
      · exact callEffort_le size stops.ge empties same
    · rw [callEffort_of_get hc, hs]
      exact less
  | reaping r =>
    have can : p.canStepReaping r = true := by simpa [hs, canStepCall] using useful
    obtain ⟨-, m⟩ := h.move_reaping c.thread
      (List.mem_append_right _ (mem_callers.2 ⟨k, c, hc, hs⟩) : r ∈ p.reapers)
    have size := m.undisturbed.size_eq
    have here := m.own_call hc hs
    rw [step_reaping hc hs]
    rcases m.effort_lt (n := pending.length) (stepReaping_ne can c.thread) with
      ⟨rfl, same, done⟩ | less
    · refine effort_putCall_lt nodup hk (by simp [here]) 0 (fun j other => ?_) ?_
      · rw [same]
        exact Nat.le_refl _
      · rw [callEffort_of_get hc, hs, same]
        show _ + Reaping.effort _ p.size _ + _ + _ < _ + 1 + _
        rw [done]
        omega
    · refine effort_putCall_lt nodup hk (by simp [here]) 4 (fun j other => ?_) ?_
      · exact callEffort_le_add size m.stops (m.calls j)
      · rw [callEffort_of_get hc, hs]
        simp only [Activity.effort, size]
        exact less
  | nudging m =>
    have going : (Activity.nudging m).isOver = false := by simpa [hs, canStepCall] using useful
    obtain ⟨-, h⟩ := p.move_nudge m
    rw [step_nudging hc hs]
    have less := h.effort_lt (n := pending.length) going
    refine effort_putCall_lt nodup hk (by simp [h.calls_eq, hc]) 0 (fun j other => ?_) ?_
    · exact callEffort_le h.size_eq (fun stop => by rwa [h.control_eq])
        (fun none => by rwa [h.idle_eq] at none) (by rw [h.calls_eq])
    · rw [callEffort_of_get hc, hs, h.idle_eq, h.handles_eq]
      simp only [Activity.effort]
      omega

end Calls

/-! ## The effort is bounded -/

section Bounds

theorem length_le_of_nodup {l : List Nat} {m : Nat} (nodup : l.Nodup) (inside : ∀ i ∈ l, i < m) :
    l.length ≤ m := by
  have fewer := (List.subperm_of_subset nodup fun i hi => List.mem_range.2 (inside i hi)).length_le
  rwa [List.length_range] at fewer

theorem IsBorn.lt {i : Nat} (h : p.IsBorn i) : i < p.size := by
  obtain ⟨w, hw, -⟩ := h
  exact (List.getElem?_eq_some_iff.1 hw).1

theorem Sound.idle_le (h : p.Sound) : p.idle.length ≤ p.size :=
  length_le_of_nodup (List.nodup_append.1 h.offers.nodup).1
    fun _ hi => h.offers.lt (List.mem_append_left _ hi)

/-- There are no more handles than workers, neither in the pool nor in a reaper's hands. -/
theorem Reachable.handles_le (h : Reachable config spawner p) :
    p.handles.length ≤ p.size ∧
      ∀ who left m, p.standing who = some (.joining left m) → left.length ≤ p.size := by
  have sound := h.sound
  obtain ⟨actions, rfl⟩ := reachable_iff_run.1 h
  have custody := custody_run config spawner actions
  generalize (create config spawner).seen handling actions = events at custody
  cases custody with
  | gathering unreaped untaken nodup fresh born =>
    refine ⟨length_le_of_nodup nodup fun i hi => ((born i).2 (.inl hi)).lt, ?_⟩
    intro who left m hr
    cases untaken who _ hr
  | taken taker done rest handles nodup born finished joins =>
    refine ⟨by simp [handles], fun who left m hr => ?_⟩
    obtain ⟨-, ⟨m', same⟩ | ⟨payload, broken⟩ | ⟨-, through⟩, -⟩ := joins.unique sound hr rfl
    · cases same
      exact length_le_of_nodup (List.nodup_append.1 nodup).2.1
        fun i hi => ((born i).2 (List.mem_append_right _ hi)).lt
    · cases broken
    · cases through

/-- A teardown visits every worker a fixed number of times. -/
theorem Reaping.remaining_le {size : Nat} {r : Reaping}
    (left : ∀ l m, r = .joining l m → l.length ≤ size) : r.remaining size ≤ 3 * size + 15 := by
  cases r with
  | joining l m =>
    have few := left l m rfl
    simp only [Reaping.remaining]
    omega
  | nudging i m => cases m <;> simp only [Reaping.remaining, Nudge.remaining] <;> omega
  | _ =>
    simp only [Reaping.remaining]
    omega

/-- The effort that remains to one call. -/
theorem Reachable.callEffort_le (h : Reachable config spawner p) (k : Nat) :
    p.callEffort n k ≤ price n * (3 * p.size + 20) := by
  have big : price n + 160 ≤ price n * 20 + 8 := by
    unfold price
    omega
  rw [Nat.mul_add]
  cases hc : p.calls[k]? with
  | none => simp [callEffort, hc]
  | some c =>
    rw [callEffort_of_get hc]
    cases hs : c.activity with
    | submitting job s =>
      have few : s.effort n p ≤ price n + 31 := by
        cases s with
        | nudging i m => cases m <;> simp only [Submission.effort, Nudge.remaining] <;> omega
        | arriving | popping =>
          simp only [Submission.effort]
          grind
        | _ =>
          simp only [Submission.effort]
          omega
      simp only [Activity.effort]
      omega
    | reaping r =>
      have few : r.remaining p.size ≤ 3 * p.size + 15 := Reaping.remaining_le fun l m same =>
        h.handles_le.2 (.caller k) l m (standing_caller.2 ⟨c, hc, by rw [hs, same]⟩)
      have scaled := Nat.mul_le_mul_left (price n) few
      rw [Nat.mul_add] at scaled
      have capped : r.effort n p.size ≤ price n * r.remaining p.size := r.effort_le n p.size
      simp only [Activity.effort]
      omega
    | nudging m =>
      simp only [Activity.effort]
      cases m <;> simp only [Nudge.remaining] <;> omega

end Bounds

/-! ## The effort before the first call

While nobody has made a call, the maker of the pool and workers without a job go on.  The count of
what remains to be done pays for what a step of the maker adds to the effort of the workers. -/

/-- Whether the maker of a pool looks at a slot before he goes to sleep there. -/
def Creation.isAwaiting : Creation → Bool
  | .awaiting _ => true
  | _ => false

/-- The effort that remains until nobody can go on, if nobody makes a call. -/
def earlyEffort (p : Pool) : Nat :=
  4 * p.remaining + 2 * p.workerEffort 0 + p.creation.isAwaiting.toNat

section Early

/-- A step of the creation costs the workers one step at most. -/
theorem CreationMove.workerEffort_le (m : CreationMove p log q) (hp : p.Sound) :
    q.workerEffort n ≤ p.workerEffort n + 1 := by
  -- the maker puts a worker to stand as `x`
  have put {i : Nat} {w x : Worker} (hw : p.workers[i]? = some w)
      (le : x.effort n ≤ w.effort n) : (p.putWorker i x).workerEffort n ≤ p.workerEffort n + 1 := by
    have sum := workerEffort_put (n := n) hw x
    omega
  cases m with
  | prepare hcreation hw => exact put hw (Nat.le_refl _)
  | undo hcreation hw => exact put hw (Nat.le_refl _)
  | @spawn i w exit hcreation hw hs =>
    have unborn := (hp.making.unborn_of .starting hw (by simp [hcreation, Creation.unborn])).1
    refine put hw ?_
    simp only [Worker.effort, unborn, Worker.Phase.effort]
    omega
  | rollBack hcreation m => exact m.workerEffort_le
  | drop hcreation m => exact m.workerEffort_le
  | refuse | store | note | sleep | started | announce => exact Nat.le_succ _

/-- Every step of the creator makes the effort of an early pool less. -/
theorem Sound.earlyEffort_lt_creation (h : p.Sound) (can : p.canStepCreation = true) :
    p.stepCreation.earlyEffort < p.earlyEffort := by
  have moved := stepCreation_ne can
  have m := h.move_creation.2
  generalize p.stepCreation.log = log at m
  generalize p.stepCreation = q at m moved
  cases m with
  | stay => exact absurd rfl moved
  | creation m =>
    have workers := m.workerEffort_le (n := 0) h
    have flag := Bool.toNat_le q.creation.isAwaiting
    rcases m.remaining h with less | same | ⟨i, hcreation, -, rfl⟩
    · unfold earlyEffort
      omega
    · exact absurd same moved
    · have remains : { p with creation := .asleep i }.remaining = p.remaining := by
        simp only [Pool.remaining, hcreation, Creation.remaining]
        rfl
      unfold earlyEffort
      rw [remains, hcreation]
      exact Nat.lt_succ_self _

/-- Workers do not take indices out of the queue. -/
theorem WorkerMove.idle_length_le {i : Nat} {w : Worker} (m : WorkerMove p log i w q) :
    p.idle.length ≤ q.idle.length := by
  cases m with
  | attach | rest => simp
  | _ => exact Nat.le_refl _

/-- Every step of a worker makes the effort of an early pool less. -/
theorem Reachable.earlyEffort_lt_worker (h : Reachable config spawner p) (uncalled : p.calls = #[])
    {i : Nat} {w : Worker} (hw : p.workers[i]? = some w) (can : p.canStepWorker w = true) :
    (p.stepWorker i).earlyEffort < p.earlyEffort := by
  obtain ⟨-, m⟩ := h.sound.moves_worker hw can
  have remains : (p.stepWorker i).remaining ≤ p.remaining := by
    rcases m.remaining hw (h.unused uncalled i w hw) with less | ⟨hphase, -, same⟩
    · exact less.le
    · have toil := toil_put hw { w with phase := .waiting }
      rw [same]
      simp only [hphase, Worker.Phase.remaining] at toil
      have size : (p.putWorker i { w with phase := .waiting }).size = p.size := List.length_set
      unfold Pool.remaining
      rw [size, Nat.add_right_cancel toil]
      exact Nat.le_refl _
  obtain ⟨less, -⟩ := m.effort_lt (n := 0) h.sound hw
  have queue : p.idle.length + p.handles.length ≤
      (p.stepWorker i).idle.length + (p.stepWorker i).handles.length := by
    rw [m.handles_eq]
    exact Nat.add_le_add_right m.idle_length_le _
  have flag := Bool.toNat_le (p.stepWorker i).creation.isAwaiting
  have paid := Nat.mul_le_mul_left (price 0) queue
  unfold earlyEffort
  omega

/-- At its beginning a pool has a bounded effort before it. -/
theorem earlyEffort_create (config : Config)
    (spawner : Nat → Except StartFailure (Option Payload.Inert)) :
    (create config spawner).earlyEffort ≤ 256 * ((create config spawner).size + 1) := by
  rcases create_cases config spawner with ⟨e, made⟩ | ⟨-, made⟩
  · rw [made]
    simp [earlyEffort, Pool.remaining, toil, workerEffort, Creation.remaining, Creation.isAwaiting]
  · rw [made]
    simp [earlyEffort, Pool.remaining, toil, workerEffort, Creation.remaining, Creation.isAwaiting,
      size, Worker.effort, Worker.Phase.effort, Worker.Phase.remaining, price]
    omega

end Early

/-! ## Sessions -/

namespace Session

/-- A session with a pool that was made, whose pending calls are calls of it, each once. -/
structure Proper (config : Config) (spawner : Nat → Except StartFailure (Option Payload.Inert))
    (s : Session) : Prop where
  reached : Reachable config spawner s.pool
  ready : s.pool.creation = .ready
  nodup : s.pending.Nodup
  inside : ∀ k ∈ s.pending, k < s.pool.calls.size

variable {s : Session} {a : Action}

/-- Whoever is to go on next can go on. -/
theorem next?_cases (next : s.next? = some a) :
    s.pool.canStepCreation = true ∧ a = .creation ∨
      (∃ k ∈ s.pending, s.pending.find? (isUseful s.pool) = some k ∧ isUseful s.pool k = true ∧
        a = .call k) ∨
      ∃ i w, s.pending.find? (isUseful s.pool) = none ∧ nextWorker? s.pool = some i ∧
        s.pool.workers[i]? = some w ∧ s.pool.canStepWorker w = true ∧ a = .worker i := by
  unfold next? at next
  split at next
  · next made => exact .inl ⟨made, (Option.some.inj next).symm⟩
  split at next
  · next k found =>
    cases next
    exact .inr (.inl ⟨k, List.mem_of_find?_eq_some found, found, List.find?_some found, rfl⟩)
  · next none =>
    obtain ⟨i, found, rfl⟩ := Option.map_eq_some_iff.1 next
    obtain ⟨inside, can, -⟩ := List.findIdx?_eq_some_iff_getElem.1 found
    exact .inr (.inr ⟨i, _, none, found, List.getElem?_eq_getElem inside, can, rfl⟩)

theorem canStepCreation_of_ready {p : Pool} (ready : p.creation = .ready) :
    p.canStepCreation = false := by
  simp [canStepCreation, ready]

/-- When the pool is made it is a call, or a worker if no call can get on. -/
theorem of_next? (ready : s.pool.creation = .ready) (next : s.next? = some a) :
    (∃ k ∈ s.pending, s.pending.find? (isUseful s.pool) = some k ∧ isUseful s.pool k = true ∧
        a = .call k) ∨
      ∃ i w, s.pending.find? (isUseful s.pool) = none ∧ nextWorker? s.pool = some i ∧
        s.pool.workers[i]? = some w ∧ s.pool.canStepWorker w = true ∧ a = .worker i := by
  refine (next?_cases next).resolve_left ?_
  rintro ⟨made, -⟩
  rw [canStepCreation_of_ready ready] at made
  cases made

theorem next?_ne_begin (next : s.next? = some a) (thread : Thread) (request : Request) :
    a ≠ .begin thread request := by
  rcases next?_cases next with ⟨-, rfl⟩ | ⟨k, -, -, -, rfl⟩ | ⟨i, w, -, -, -, -, rfl⟩ <;> simp

/-- The session after the next step. -/
def Goes (s t : Session) : Prop := ∃ a, s.next? = some a ∧ t = { s with pool := s.pool.step a }

/-- Every turn makes the effort less. -/
theorem Proper.effort_lt (h : s.Proper config spawner) (next : s.next? = some a) :
    (s.pool.step a).effort s.pending < s.pool.effort s.pending := by
  have sound := h.reached.sound
  rcases of_next? h.ready next with ⟨k, hk, -, useful, rfl⟩ | ⟨i, w, -, -, hw, can, rfl⟩
  · exact sound.effort_lt_call h.nodup hk useful
  · have m := (sound.moves_worker hw can).2
    obtain ⟨less, empties⟩ := m.effort_lt (n := s.pending.length) sound hw
    have others : (s.pending.map ((s.pool.stepWorker i).callEffort s.pending.length)).sum ≤
        (s.pending.map (s.pool.callEffort s.pending.length)).sum :=
      List.sum_le_sum fun k _ => Pool.callEffort_le (Move.size_eq (.worker hw m))
        (fun stop => by rwa [m.control_eq]) empties (by rw [m.calls_eq])
    show (s.pool.stepWorker i).effort s.pending < s.pool.effort s.pending
    unfold effort
    omega

/-- A session stays proper under every action on its pool. -/
theorem Proper.step (h : s.Proper config spawner) (a : Action) :
    Proper config spawner { s with pool := s.pool.step a } := by
  have m := (h.reached.sound.move_step a).2
  exact ⟨h.reached.step a, m.creation_ready h.ready, h.nodup,
    fun k hk => (h.inside k hk).trans_le m.calls_size_le⟩

theorem Proper.next (h : s.Proper config spawner) {t : Session} (goes : Goes s t) :
    t.Proper config spawner := by
  obtain ⟨a, -, rfl⟩ := goes
  exact h.step a

/-- A session stays proper as turns go on. -/
theorem Proper.goes (h : s.Proper config spawner) {t : Session} (goes : ReflTransGen Goes s t) :
    t.Proper config spawner := by
  induction goes with
  | refl => exact h
  | tail _ last ih => exact ih.next last

/-- Running a session is giving turns. -/
theorem goes_run (fuel : Nat) (s : Session) : ReflTransGen Goes s (run fuel s) := by
  induction fuel generalizing s with
  | zero => exact .refl
  | succ fuel ih =>
    rw [run]
    split
    · exact .refl
    · next a next => exact .head ⟨a, next, rfl⟩ (ih _)

/-- If each step costs some of a measure, nobody can go on when as many steps were made. -/
theorem next?_run_of_lt (keeps : Session → Prop) (measure : Session → Nat)
    (keep : ∀ s t, keeps s → Goes s t → keeps t)
    (cost : ∀ s t, keeps s → Goes s t → measure t < measure s) {fuel : Nat} (h : keeps s)
    (enough : measure s ≤ fuel) : (run fuel s).next? = none := by
  induction fuel generalizing s with
  | zero =>
    cases next : s.next? with
    | none => exact next
    | some a =>
      have less := cost s _ h ⟨a, next, rfl⟩
      omega
  | succ fuel ih =>
    rw [run]
    split
    · next none => exact none
    · next a next =>
      have less := cost s _ h ⟨a, next, rfl⟩
      exact ih (keep s _ h ⟨a, next, rfl⟩) (by omega)

/-- A session that was run long enough is at rest. -/
theorem Proper.next?_run {fuel : Nat} (h : s.Proper config spawner)
    (enough : s.pool.effort s.pending ≤ fuel) : (run fuel s).next? = none := by
  refine next?_run_of_lt (Proper config spawner) (fun s => s.pool.effort s.pending)
    (fun s t h goes => h.next goes) ?_ h enough
  rintro s t h ⟨a, next, rfl⟩
  exact h.effort_lt next

/-- The fuel of a session covers its effort. -/
theorem Proper.effort_le_fuel (h : s.Proper config spawner) :
    s.pool.effort s.pending ≤ s.fuel := by
  have workers : s.pool.workerEffort s.pending.length ≤
      s.pool.size * (2 * price s.pending.length + 36) := by
    have bound := List.sum_le_card_nsmul (s.pool.workers.map (·.effort s.pending.length))
      (2 * price s.pending.length + 36) fun e he => by
        obtain ⟨w, -, rfl⟩ := List.mem_map.1 he
        exact w.effort_le _
    rw [List.length_map] at bound
    exact bound
  have calls : (s.pending.map (s.pool.callEffort s.pending.length)).sum ≤
      s.pending.length * (price s.pending.length * (3 * s.pool.size + 20)) := by
    have bound := List.sum_le_card_nsmul (s.pending.map (s.pool.callEffort s.pending.length))
      (price s.pending.length * (3 * s.pool.size + 20)) fun e he => by
        obtain ⟨k, -, rfl⟩ := List.mem_map.1 he
        exact h.reached.callEffort_le k
    rw [List.length_map] at bound
    exact bound
  have queue : price s.pending.length * (s.pool.idle.length + s.pool.handles.length) ≤
      price s.pending.length * (2 * s.pool.size) := by
    have idle := h.reached.sound.idle_le
    have handles := h.reached.handles_le.1
    exact Nat.mul_le_mul_left _ (by omega)
  unfold effort fuel
  generalize s.pool.workerEffort _ = x at workers ⊢
  generalize (s.pending.map (s.pool.callEffort s.pending.length)).sum = y at calls ⊢
  generalize price _ * (s.pool.idle.length + _) = z at queue ⊢
  generalize s.pending.length = n at *
  generalize s.pool.size = m at *
  unfold price at workers calls queue
  nlinarith

/-- There is one way to rest. -/
theorem rests_unique {t u : Session} (ht : ReflTransGen Goes s t) (hu : ReflTransGen Goes s u)
    (rest : t.next? = none) (rest' : u.next? = none) : t = u := by
  induction ht using ReflTransGen.head_induction_on with
  | refl =>
    rcases hu.cases_head with same | ⟨v, ⟨a, next, -⟩, -⟩
    · exact same
    · rw [rest] at next
      cases next
  | head first _ ih =>
    obtain ⟨a, next, rfl⟩ := first
    rcases hu.cases_head with rfl | ⟨v, ⟨b, next', rfl⟩, more⟩
    · rw [rest'] at next
      cases next
    · obtain rfl : a = b := Option.some.inj (next.symm.trans next')
      exact ih more

/-- A session that goes on as long as its fuel lasts comes to rest. -/
theorem Proper.run_eq (h : s.Proper config spawner) {t : Session} (goes : ReflTransGen Goes s t)
    (rest : t.next? = none) : run s.fuel s = t :=
  rests_unique (goes_run _ s) goes (h.next?_run h.effort_le_fuel) rest

/-! ### Rest -/

/-- In a pool that was made, calls come before workers. -/
theorem next?_of_ready (ready : s.pool.creation = .ready) :
    s.next? =
      match s.pending.find? (isUseful s.pool) with
      | some k => some (.call k)
      | none => (nextWorker? s.pool).map .worker := by
  unfold next?
  cases s.pending.find? (isUseful s.pool) <;> simp [canStepCreation_of_ready ready]

/-- A session is at rest when no call is worth a turn and no worker can move. -/
theorem next?_eq_none_iff (ready : s.pool.creation = .ready) :
    s.next? = none ↔
      s.pending.find? (isUseful s.pool) = none ∧ nextWorker? s.pool = none := by
  rw [next?_of_ready ready]
  cases s.pending.find? (isUseful s.pool) <;> simp

/-- A call that is worth a turn is not over. -/
theorem unfinished_of_useful {p : Pool} {k : Nat} (useful : isUseful p k = true) :
    ∃ c, p.calls[k]? = some c ∧ c.activity.isOver = false := by
  unfold isUseful at useful
  cases hc : p.calls[k]? with
  | none => simp [hc] at useful
  | some c =>
    refine ⟨c, rfl, ?_⟩
    rw [hc] at useful
    cases hs : c.activity with
    | submitting job s =>
      cases s <;> first | rfl | simp [hs, canStepCall, Activity.isOver] at useful
    | reaping r => cases r <;> first | rfl | simp [hs, canStepCall, canStepReaping] at useful
    | nudging n => cases n <;> first | rfl | simp [hs, canStepCall, Activity.isOver] at useful

/-- Whether a pending call has not returned. -/
def lasts (p : Pool) (k : Nat) : Bool := ((p.calls[k]?).map (!·.activity.isOver)).getD false

theorem lasts_iff {p : Pool} {k : Nat} :
    lasts p k = true ↔ ∃ c, p.calls[k]? = some c ∧ c.activity.isOver = false := by
  unfold lasts
  cases p.calls[k]? <;> simp

/-- A session that has settled rests. -/
theorem Proper.settle (h : s.Proper config spawner) :
    s.settle.Proper config spawner ∧ s.settle.next? = none := by
  have proper := h.goes (goes_run s.fuel s)
  have rests := h.next?_run h.effort_le_fuel
  show Proper config spawner
      { run s.fuel s with pending := (run s.fuel s).pending.filter (lasts _) } ∧
    next? { run s.fuel s with pending := (run s.fuel s).pending.filter (lasts _) } = none
  generalize run s.fuel s = t at proper rests
  rw [next?_eq_none_iff proper.ready] at rests
  rw [next?_eq_none_iff (s := { t with pending := t.pending.filter (lasts t.pool) }) proper.ready]
  refine ⟨⟨proper.reached, proper.ready, proper.nodup.filter _,
    fun k hk => proper.inside k (List.mem_filter.1 hk).1⟩, ?_, rests.2⟩
  rw [List.find?_eq_none] at rests ⊢
  exact fun k hk => rests.1 k (List.mem_filter.1 hk).1

/-! ### The start -/

/-- A session with a pool of which nobody has made a call. -/
structure Fresh (config : Config) (spawner : Nat → Except StartFailure (Option Payload.Inert))
    (s : Session) : Prop where
  reached : Reachable config spawner s.pool
  uncalled : s.pool.calls = #[]
  pending : s.pending = []

/-- A session without calls stays fresh when somebody has a turn. -/
theorem Fresh.next (h : s.Fresh config spawner) {t : Session} (goes : Goes s t) :
    t.Fresh config spawner := by
  obtain ⟨a, next, rfl⟩ := goes
  have size := (h.reached.sound.move_step a).2.calls_size_eq (next?_ne_begin next)
  refine ⟨h.reached.step a, Array.size_eq_zero_iff.1 ?_, h.pending⟩
  rw [size, h.uncalled]
  rfl

/-- Every turn makes the effort of a fresh session less. -/
theorem Fresh.earlyEffort_lt (h : s.Fresh config spawner) {t : Session} (goes : Goes s t) :
    t.pool.earlyEffort < s.pool.earlyEffort := by
  obtain ⟨a, next, rfl⟩ := goes
  rcases next?_cases next with ⟨can, rfl⟩ | ⟨k, hk, -⟩ | ⟨i, w, -, -, hw, can, rfl⟩
  · exact h.reached.sound.earlyEffort_lt_creation can
  · rw [h.pending] at hk
    cases hk
  · exact h.reached.earlyEffort_lt_worker h.uncalled hw can

/-- A session without calls stays fresh as turns go on. -/
theorem Fresh.goes (h : s.Fresh config spawner) {t : Session} (goes : ReflTransGen Goes s t) :
    t.Fresh config spawner := by
  induction goes with
  | refl => exact h
  | tail _ last ih => exact ih.next last

/-- A session in which every call came to its end is settled as it stands. -/
theorem settle_of_pending {s : Session} (none : (run s.fuel s).pending = []) :
    s.settle = run s.fuel s := by
  unfold settle
  generalize run s.fuel s = t at none
  obtain ⟨pool, pending⟩ := t
  subst none
  rfl

/-- Making a pool goes on until nobody can, whatever becomes of it. -/
theorem start_rests (config : Config) (spawner : Nat → Except StartFailure (Option Payload.Inert)) :
    (start config spawner).Fresh config spawner ∧ (start config spawner).next? = none := by
  have fresh : Fresh config spawner { pool := create config spawner } := by
    refine ⟨.start, ?_, rfl⟩
    rcases create_cases config spawner with ⟨e, made⟩ | ⟨-, made⟩ <;> rw [made]
  have ended := fresh.goes (goes_run (fuel { pool := create config spawner }) _)
  rw [start, settle_of_pending ended.pending]
  refine ⟨ended, next?_run_of_lt (Fresh config spawner) (fun s => s.pool.earlyEffort)
    (fun s t h => h.next) (fun s t h => h.earlyEffort_lt) fresh ?_⟩
  simpa [fuel] using earlyEffort_create config spawner

end Session

end Pool

end Interlock
