import Interlock.Proofs.Debugging.Course
import Interlock.Proofs.ReadWrite.Alone

/-!
# The reader/writer lock while it is debugged

As for the exclusive lock, `hush` switches debugging off and takes the lines at level `debug` out of
the log.  The flag is read in `State.note` alone, so a hushed step is the step, hushed
(`hush_step`), and a thread is driven as far.  This lock is shown without its flag, so that even
there nothing tells whether it is being debugged.
-/

namespace Interlock

namespace ReadWrite

/-- A lock that does not log contention. -/
def hush (l : ReadWrite) : ReadWrite := { l with debugging := false }

theorem hush_updateTally (l : ReadWrite) (f : Tally → Tally) (mode : Mode) :
    l.hush.updateTally f mode = (l.updateTally f mode).hush := by
  cases mode <;> rfl

namespace State

variable {σ : Type}

/-- A lock that does not log contention, without the debug lines that it has logged. -/
def hush (s : State σ) : State σ :=
  { s with lock := s.lock.hush, log := Log.quiet s.log }

theorem hush_attempt (raw : Raw σ) (mode : Mode) (timed : Bool) (s : State σ) :
    s.hush.attempt raw mode timed = Prod.map id hush (s.attempt raw mode timed) := rfl

theorem hush_modify {f : ReadWrite → ReadWrite} (hf : ∀ l, f (ReadWrite.hush l) = (f l).hush)
    (s : State σ) : s.hush.modify f = (s.modify f).hush :=
  congrArg (fun lock => { s with lock, log := Log.quiet s.log }) (hf s.lock)

/-- The one place where the flag is read. -/
@[simp] theorem hush_note (text : String) (s : State σ) :
    s.hush.note text = (s.note text).hush := by
  simp only [note, hush, Log.quiet_debugIf]
  rfl

@[simp] theorem hush_report_error (text : String) (s : State σ) :
    s.hush.report (.error text) = (s.report (.error text)).hush := by
  simp only [report, hush, Log.quiet_error]

end State

section Steps

variable {σ : Type} (raw : Raw σ) (me : Nat)

/-- A step of an operation goes the same way whether or not contention is logged. -/
theorem hush_step (s : State σ) (a : Activity) :
    step raw me s.hush a = Prod.map State.hush id (step raw me s a) := by
  cases a with
  | trying stage rest =>
    simp only [step, State.hush_attempt]
    rcases s.attempt raw stage.mode false with ⟨_ | _, t⟩ <;> rfl
  | retrying mode left =>
    simp only [step, State.hush_attempt]
    rcases s.attempt raw mode false with ⟨_ | _, t⟩ <;> rfl
  | slicing mode =>
    simp only [step, State.hush_attempt]
    rcases s.attempt raw mode true with ⟨_ | _, t⟩ <;> rfl
  | counting stage rest =>
    have counted := State.hush_modify (f := (·.countBusy stage.mode))
      (fun l => hush_updateTally l _ stage.mode) s
    simp only [step, counted]
    rfl
  | spinning mode | tallying mode =>
    have counted := State.hush_modify (f := (·.countSpin mode))
      (fun l => hush_updateTally l _ mode) s
    simp only [step, counted]
    rfl
  | noting stage rest =>
    simp only [step, State.hush_note]
    by_cases waits : stage.waits = true
    · rw [if_pos waits, if_pos waits]
      rfl
    · rw [if_neg waits, if_neg waits]
      rfl
  | waitingOn mode | notingDowngrade =>
    simp only [step, State.hush_note]
    rfl
  | recording mode => cases mode <;> rfl
  | releasing =>
    by_cases mine : s.lock.owner = me
    · have mine' : s.hush.lock.owner = me := mine
      rw [step, step, if_pos mine, if_pos mine']
      rfl
    · have mine' : ¬ s.hush.lock.owner = me := mine
      rw [step, step, if_neg mine, if_neg mine']
      rfl
  | leaving =>
    have same : s.hush.lock.readers = s.lock.readers := rfl
    simp only [step, same, State.hush_report_error]
    cases s.lock.readers <;> rfl
  | checking =>
    by_cases mine : s.lock.owner = me
    · have mine' : s.hush.lock.owner = me := mine
      rw [step, step, if_pos mine, if_pos mine']
      rfl
    · have mine' : ¬ s.hush.lock.owner = me := mine
      rw [step, step, if_neg mine, if_neg mine', State.hush_report_error]
      rfl
  | releasingExclusive | releasingShared | joining | disowning | lowering | countingDowngrade
  | finished => rfl

theorem hush_drive (n : Nat) (s : State σ) (a : Activity) :
    drive raw me n (s.hush, a) = Prod.map State.hush id (drive raw me n (s, a)) := by
  induction n generalizing s a with
  | zero => rfl
  | succ n ih =>
    have settled : a.isSettled raw s.hush.world = a.isSettled raw s.world := rfl
    simp only [drive, settled, hush_step]
    split
    · rfl
    · exact ih _ _

end Steps

/-! ## Threads of a system -/

namespace System

variable {σ : Type} (raw : Raw σ) (tokens : Tokens) (thread : Nat)

/-- A system of threads at such a lock. -/
def hush (s : System σ) : System σ := { s with state := s.state.hush }

theorem hush_start (op : Operation) (s : System σ) :
    s.hush.start thread op = (s.start thread op).hush := by
  have free : s.hush.isFree thread = s.isFree thread := rfl
  simp only [start, free]
  split <;> rfl

theorem hush_advance (s : System σ) :
    s.hush.advance raw tokens thread = (s.advance raw tokens thread).hush := by
  have threads : s.hush.threads = s.threads := rfl
  simp only [advance, threads]
  cases s.threads[thread]? with
  | none => rfl
  | some activity =>
    have enough : fuel raw s.hush.state = fuel raw s.state := rfl
    have driven := hush_drive raw (tokens.of thread) (fuel raw s.state) s.state activity
    simp only [enough]
    rw [show s.hush.state = s.state.hush from rfl, driven]
    rfl

theorem hush_call (op : Operation) (s : System σ) :
    s.hush.call raw tokens thread op = Prod.map id hush (s.call raw tokens thread op) := by
  simp only [call, hush_start, hush_advance]
  rfl

end System

/-! ## Steps of a session -/

/-- Whether a step only switches the log of contention. -/
def Step.isSilent {α : Type} : Step α → Bool
  | .setDebug _ => true
  | _ => false

namespace Session

variable {σ α : Type} (raw : Raw σ) (thread : Nat)

/-- A session with such a lock. -/
def hush (s : Session σ) : Session σ := { s with system := s.system.hush }

theorem hush_call (op : Operation) (s : Session σ) :
    s.hush.call raw thread op = Prod.map id hush (s.call raw thread op) := by
  simp only [call, hush, System.hush_call]
  rfl

theorem hush_enter (scope : Scope) (s : Session σ) :
    s.hush.enter raw thread scope = Prod.map id hush (s.enter raw thread scope) := by
  simp only [enter, hush_call]
  rcases s.call raw thread (.acquire (.waitFor scope.mode)) with ⟨_ | ⟨level⟩ | _ | _ | f, t⟩
  · rfl
  · by_cases lowered : scope = .lowered
    · simp only [lowered, Prod.map, id_eq, ↓reduceIte]
      exact hush_call raw thread .downgrade t
    · simp only [lowered, Prod.map, id_eq, ↓reduceIte]
  · rfl
  · rfl
  · rfl

theorem hush_probe (mode : Mode) (s : Session σ) :
    s.hush.probe raw thread mode = Prod.map id hush (s.probe raw thread mode) := by
  simp only [probe, hush_call]
  rcases s.call raw thread (.acquire (.tryFor mode)) with ⟨_ | ⟨level⟩ | _ | _ | f, t⟩
  · rfl
  · by_cases locked : level.isLocked = true
    · simp only [locked, Prod.map, id_eq, ↓reduceIte, hush_call]
    · simp only [locked, Prod.map, id_eq]
      rfl
  · rfl
  · rfl
  · rfl

theorem hush_inScope (body : Ending Unit) (s : Session σ) :
    inScope raw thread body s.hush = Prod.map id hush (inScope raw thread body s) := by
  cases body with
  | error payload => rfl
  | ok value =>
    have same : s.hush.lock.isWriteLocked = s.lock.isWriteLocked := rfl
    simp only [inScope, probes, same, hush_probe, Prod.map, id_eq]

section Held

variable {body : Session σ → Ending α × Session σ}
  (hbody : ∀ s, body s.hush = Prod.map id hush (body s))

include hbody in
theorem hush_runHeld (s : Session σ) :
    s.hush.runHeld raw thread body = Prod.map id hush (s.runHeld raw thread body) := by
  unfold runHeld
  rw [hbody]
  rcases body s with ⟨payload | value, t⟩ <;>
    simp only [Prod.map, id_eq, hush_call] <;>
    rcases t.call raw thread .release with ⟨_ | _ | _ | _ | f, u⟩ <;> rfl

include hbody in
/-- Code that runs in a scope goes the same way. -/
theorem hush_within (scope : Scope) (s : Session σ) :
    s.hush.within raw thread scope body = Prod.map id hush (s.within raw thread scope body) := by
  unfold within
  rw [hush_enter]
  rcases s.enter raw thread scope with ⟨_ | _ | _ | _ | f, t⟩
  · rfl
  · exact hush_runHeld raw thread hbody t
  · exact hush_runHeld raw thread hbody t
  · exact hush_runHeld raw thread hbody t
  · rfl

end Held

/-- Every audible step goes the same way, and replies the same. -/
theorem hush_perform {step : Step α} (audible : step.isSilent = false) (s : Session σ) :
    s.hush.perform raw thread step = Prod.map id hush (s.perform raw thread step) := by
  cases step with
  | acquire strategy =>
    simp only [perform, hush_call]
    rfl
  | release | downgrade =>
    simp only [perform, hush_call]
    rfl
  | guard mode =>
    simp only [perform, hush_call]
    rcases s.call raw thread (.acquire (.waitFor mode)) with ⟨_ | _ | _ | _ | f, t⟩ <;> rfl
  | tryGuard mode =>
    simp only [perform, hush_call]
    rcases s.call raw thread (.acquire (.tryFor mode)) with ⟨_ | ⟨level⟩ | _ | _ | f, t⟩
    · rfl
    · by_cases locked : level.isLocked = true
      · simp only [locked, Prod.map, id_eq, ↓reduceIte]
        rfl
      · simp only [locked, Prod.map, id_eq]
        rfl
    · rfl
    · rfl
    · rfl
  | dropGuard =>
    obtain ⟨system, guards⟩ := s
    cases guards with
    | nil => rfl
    | cons mode guards =>
      have called := hush_call raw thread .release ⟨system, guards⟩
      simp only [perform, hush] at called ⊢
      rw [called]
      rcases call raw thread .release ⟨system, guards⟩ with ⟨_ | _ | _ | _ | f, t⟩ <;> rfl
  | downgradeGuard =>
    obtain ⟨system, guards⟩ := s
    cases guards with
    | nil => rfl
    | cons mode guards =>
      cases mode with
      | read => rfl
      | write =>
        have called := hush_call raw thread .downgrade ⟨system, guards⟩
        simp only [perform, hush] at called ⊢
        rw [called]
        rcases call raw thread .downgrade ⟨system, guards⟩ with ⟨_ | _ | _ | _ | f, t⟩ <;> rfl
  | withLock body =>
    have plain : ∀ t : Session σ, (body, t.hush) = Prod.map id hush (body, t) := fun _ => rfl
    simp only [perform, hush_within raw thread plain]
    rfl
  | scope scope body =>
    simp only [perform, hush_within raw thread (hush_inScope raw thread body)]
    rfl
  | setDebug on => cases audible
  | clear => rfl
  -- what is shown of this lock leaves the flag out
  | render => rfl

/-- Telling the lock to log more or less is not to be seen. -/
theorem hush_perform_silent {step : Step α} (silent : step.isSilent = true) (s : Session σ) :
    (s.perform raw thread step).2.hush = s.hush := by
  cases step with
  | setDebug on => rfl
  | _ => cases silent

/-- Locks that differ in the flag only take a step alike. -/
theorem perform_alike {step : Step α} (audible : step.isSilent = false) {s t : Session σ}
    (h : s.hush = t.hush) :
    Debugging.SeenAlike hush Eq (s.perform raw thread step) (t.perform raw thread step) := by
  have hs := hush_perform raw thread audible s
  rw [h, hush_perform raw thread audible t] at hs
  obtain ⟨replies, states⟩ := Prod.ext_iff.1 hs
  exact ⟨replies.symm, states.symm⟩

/-- What an observer sees of a run. -/
def course (steps : List (Step α)) (s : Session σ) : List (Reply α × Session σ) :=
  Debugging.course (perform raw thread) Step.isSilent steps s

theorem run_eq_final (steps : List (Step α)) (s : Session σ) :
    (s.run raw thread steps).2 = Debugging.final (perform raw thread) steps s := by
  induction steps generalizing s with
  | nil => rfl
  | cons step steps ih => exact ih _

/-- Runs that differ in switching the flag only look alike, step by step. -/
theorem course_alike {steps steps' : List (Step α)} {s s' : Session σ}
    (same : steps.filter (!·.isSilent) = steps'.filter (!·.isSilent)) (h : s.hush = s'.hush) :
    List.Forall₂ (Debugging.SeenAlike hush Eq) (s.course raw thread steps)
        (s'.course raw thread steps') ∧
      (s.run raw thread steps).2.hush = (s'.run raw thread steps').2.hush := by
  rw [run_eq_final, run_eq_final]
  exact Debugging.forall₂_course (fun _ t silent => hush_perform_silent raw thread silent t)
    (fun _ _ _ audible => perform_alike raw thread audible) same h

end Session

end ReadWrite

end Interlock
