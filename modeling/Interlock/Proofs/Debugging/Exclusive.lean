import Interlock.Exclusive.Session
import Interlock.Proofs.Debugging.Course

/-!
# The exclusive lock while it is debugged

`hush` switches debugging off and takes the lines at level `debug` out of the log; everything else
of a lock stays: the counters, the calls of its mutex, the world of the mutex, the guards and the
threads that wait.  Every operation commutes with it and gives the same result: the flag is read in
`State.noteBusy` alone, and what is logged there is hushed.  Only the lock as it is shown tells the
flag.
-/

namespace Interlock

namespace Exclusive

/-- A lock that does not log contention. -/
def hush (l : Exclusive) : Exclusive := { l with debugging := false }

namespace State

variable {σ α : Type} (b : Mutex.Backend σ)

/-- A lock that does not log contention, without the debug lines that it has logged. -/
def hush (s : State σ) : State σ where
  lock := s.lock.hush
  wire := { s.wire with log := Log.quiet s.wire.log }

theorem hush_ask (op : Mutex.Op) (s : State σ) :
    s.hush.ask b op = Prod.map id hush (s.ask b op) := by
  unfold ask Mutex.Wire.ask
  by_cases blocked : op = .lock ∧ b.blocks s.wire.world = true
  · have blocked' : op = .lock ∧ b.blocks s.hush.wire.world = true := blocked
    rw [if_pos blocked, if_pos blocked']
    rfl
  · have blocked' : ¬ (op = .lock ∧ b.blocks s.hush.wire.world = true) := blocked
    rw [if_neg blocked, if_neg blocked']
    rfl

@[simp] theorem hush_countSpin (s : State σ) : s.hush.countSpin = s.countSpin.hush := rfl

@[simp] theorem hush_countSpurious (s : State σ) :
    s.hush.countSpurious = s.countSpurious.hush := rfl

@[simp] theorem hush_countBusy (s : State σ) : s.hush.countBusy = s.countBusy.hush := rfl

@[simp] theorem hush_fail (f : Fault) (s : State σ) :
    s.hush.fail f = Prod.map id hush (s.fail f) := by
  simp [fail, report, Mutex.Wire.report, hush]

@[simp] theorem hush_absorb (e : PrimitiveError) (s : State σ) :
    s.hush.absorb e = (s.absorb e).hush := by
  simp [absorb, report, Mutex.Wire.report, hush, countSpin, countSpurious, Exclusive.hush]

/-- The one place where the flag is read. -/
@[simp] theorem hush_noteBusy (s : State σ) : s.hush.noteBusy = s.noteBusy.hush := by
  simp only [noteBusy, hush, Exclusive.hush, Log.quiet_debugIf]
  rfl

/-- A call that is repeated goes the same way whether or not contention is logged. -/
theorem hush_persist (op : Mutex.Op) (left : Nat) (s : State σ) :
    s.hush.persist b op left = Prod.map id hush (s.persist b op left) := by
  induction left generalizing s with
  | zero =>
    unfold persist
    rw [hush_ask]
    rcases s.ask b op with ⟨_ | _ | e, t⟩
    · rfl
    · rfl
    · by_cases spurious : e.isSpurious = true <;> simp [spurious]
  | succ left ih =>
    unfold persist
    rw [hush_ask]
    rcases s.ask b op with ⟨_ | _ | e, t⟩
    · rfl
    · rfl
    · by_cases spurious : e.isSpurious = true <;> simp [spurious, ih]

/-- Spins go the same way. -/
theorem hush_spinOn (spins left : Nat) (s : State σ) :
    s.hush.spinOn b spins left = Prod.map id hush (s.spinOn b spins left) := by
  induction spins generalizing left s with
  | zero => simp [spinOn]
  | succ spins ih =>
    unfold spinOn
    rw [hush_countSpin, hush_ask]
    rcases s.countSpin.ask b .tryLock with ⟨_ | _ | e, t⟩
    · rfl
    · exact ih left t
    · cases left <;> by_cases spurious : e.isSpurious = true <;> simp [spurious, ih]

/-- An acquisition goes the same way. -/
theorem hush_acquire (s : State σ) : s.hush.acquire b = Prod.map id hush (s.acquire b) := by
  unfold acquire
  rw [hush_persist]
  rcases s.persist b .tryLock Limits.spuriousRetries with ⟨_ | left | f, t⟩
  · rfl
  · have spun : t.hush.countBusy.noteBusy.spinOn b t.hush.lock.spinLimit left =
        Prod.map id hush (t.countBusy.noteBusy.spinOn b t.lock.spinLimit left) := by
      rw [hush_countBusy, hush_noteBusy, hush_spinOn]
      rfl
    simp only [Prod.map, id_eq] at spun ⊢
    rw [spun]
    rcases t.countBusy.noteBusy.spinOn b t.lock.spinLimit left with ⟨_ | left | f, u⟩
    · rfl
    · exact hush_persist b .lock left u
    · rfl
  · rfl

theorem hush_tryAcquire (s : State σ) :
    s.hush.tryAcquire b = Prod.map id hush (s.tryAcquire b) := by
  unfold tryAcquire
  rw [hush_persist]
  rcases s.persist b .tryLock Limits.spuriousRetries with ⟨_ | _ | f, t⟩ <;> rfl

theorem hush_release (s : State σ) : s.hush.release b = Prod.map id hush (s.release b) := by
  unfold release
  rw [hush_persist]
  rcases s.persist b .unlock Limits.spuriousRetries with ⟨_ | _ | f, t⟩ <;> rfl

section Held

variable {body : State σ → Ending α × State σ}
  (hbody : ∀ s, body s.hush = Prod.map id hush (body s))

include hbody in
theorem hush_runHeld (s : State σ) :
    s.hush.runHeld b body = Prod.map id hush (s.runHeld b body) := by
  unfold runHeld
  rw [hbody]
  rcases body s with ⟨payload | value, t⟩ <;>
    simp only [Prod.map, id_eq, hush_release] <;>
    rcases t.release b with ⟨_ | _, u⟩ <;> rfl

include hbody in
/-- Code that runs under the lock goes the same way. -/
theorem hush_withLock (s : State σ) :
    s.hush.withLock b body = Prod.map id hush (s.withLock b body) := by
  unfold withLock
  rw [hush_acquire]
  rcases s.acquire b with ⟨_ | left | f, t⟩
  · exact hush_runHeld b hbody t
  · rfl
  · rfl

end Held

theorem hush_probe (s : State σ) : s.hush.probe b = Prod.map id hush (s.probe b) := by
  unfold probe
  rw [hush_tryAcquire]
  rcases s.tryAcquire b with ⟨_ | _ | _, t⟩
  · rfl
  · rfl
  · simp only [Prod.map, id_eq, hush_release]
    rcases t.release b with ⟨_ | _, u⟩ <;> rfl

end State

/-! ## Steps -/

/-- Whether a step only switches the log of contention. -/
def Step.isSilent {α : Type} : Step α → Bool
  | .setDebug _ => true
  | _ => false

/-- Replies that tell the same, except for the flag that a shown lock displays. -/
inductive Reply.Alike {α : Type} : Reply α → Reply α → Prop where
  | same (r : Reply α) : Reply.Alike r r
  | shown {l l' : Exclusive} (h : l.hush = l'.hush) :
      Reply.Alike (.shown l.render) (.shown l'.render)

namespace Session

variable {σ α : Type} (b : Mutex.Backend σ) (thread : Nat)

/-- A session with such a lock. -/
def hush (s : Session σ) : Session σ := { s with state := s.state.hush }

@[simp] theorem hush_state (s : Session σ) : s.hush.state = s.state.hush := rfl

theorem hush_settle (s : Session σ) (r : Attempt × State σ) :
    s.hush.settle thread (Prod.map id State.hush r) =
      Prod.map (id : Reply α → Reply α) hush (s.settle thread r) := by
  rcases r with ⟨_ | _ | _, t⟩ <;> rfl

/-- Every audible step that does not show the lock goes the same way, and replies the same. -/
theorem hush_perform {step : Step α} (audible : step.isSilent = false) (discreet : step ≠ .render)
    (s : Session σ) :
    s.hush.perform b thread step = Prod.map id hush (s.perform b thread step) := by
  cases step with
  | lock =>
    simp only [perform, hush_state, State.hush_acquire]
    exact hush_settle thread s _
  | tryLock =>
    simp only [perform, hush_state, State.hush_tryAcquire]
    rfl
  | unlock =>
    simp only [perform, hush_state, State.hush_release]
    rfl
  | guard =>
    simp only [perform, hush_state, State.hush_acquire]
    rcases s.state.acquire b with ⟨_ | _ | _, t⟩ <;> rfl
  | tryGuard =>
    simp only [perform, hush_state, State.hush_tryAcquire]
    rcases s.state.tryAcquire b with ⟨_ | ⟨_ | _⟩, t⟩ <;> rfl
  | dropGuard =>
    obtain ⟨state, guards, waiting⟩ := s
    cases guards with
    | zero => rfl
    | succ guards =>
      simp only [perform, hush, State.hush_release]
      rfl
  | withLock body =>
    have plain : ∀ t : State σ, (body, t.hush) = Prod.map id State.hush (body, t) := fun _ => rfl
    simp only [perform, hush_state, State.hush_withLock b plain]
    rfl
  | guardScope body =>
    cases body with
    | error payload =>
      have plain : ∀ t : State σ, ((.error payload : Ending Bool), t.hush) =
          Prod.map id State.hush (.error payload, t) := fun _ => rfl
      simp only [perform, hush_state, State.hush_withLock b plain]
      rfl
    | ok value =>
      simp only [perform, hush_state, State.hush_withLock b (State.hush_probe b)]
      rfl
  | tryGuardScope =>
    simp only [perform, hush_state, State.hush_probe]
    rcases s.state.probe b with ⟨_ | _, t⟩ <;> rfl
  | setDebug on => cases audible
  | clear => rfl
  | render => exact absurd rfl discreet

/-- Telling the lock to log more or less is not to be seen. -/
theorem hush_perform_silent {step : Step α} (silent : step.isSilent = true) (s : Session σ) :
    (s.perform b thread step).2.hush = s.hush := by
  cases step with
  | setDebug on => rfl
  | _ => cases silent

/-- Locks that differ in the flag only take a step alike. -/
theorem perform_alike {step : Step α} (audible : step.isSilent = false) {s t : Session σ}
    (h : s.hush = t.hush) :
    Debugging.SeenAlike hush Reply.Alike (s.perform b thread step) (t.perform b thread step) := by
  by_cases shown : step = .render
  · subst shown
    exact ⟨.shown (congrArg (·.state.lock) h), h⟩
  · have hs := hush_perform b thread audible shown s
    rw [h, hush_perform b thread audible shown t] at hs
    obtain ⟨replies, states⟩ := Prod.ext_iff.1 hs
    simp only [Prod.map_fst, Prod.map_snd, id_eq] at replies states
    exact ⟨replies ▸ .same _, states.symm⟩

/-- What an observer sees of a run. -/
def course (steps : List (Step α)) (s : Session σ) : List (Reply α × Session σ) :=
  Debugging.course (perform b thread) Step.isSilent steps s

theorem run_eq_final (steps : List (Step α)) (s : Session σ) :
    (s.run b thread steps).2 = Debugging.final (perform b thread) steps s := by
  induction steps generalizing s with
  | nil => rfl
  | cons step steps ih => exact ih _

/-- Runs that differ in switching the flag only look alike, step by step. -/
theorem course_alike {steps steps' : List (Step α)} {s s' : Session σ}
    (same : steps.filter (!·.isSilent) = steps'.filter (!·.isSilent)) (h : s.hush = s'.hush) :
    List.Forall₂ (Debugging.SeenAlike hush Reply.Alike) (s.course b thread steps)
        (s'.course b thread steps') ∧
      (s.run b thread steps).2.hush = (s'.run b thread steps').2.hush := by
  rw [run_eq_final, run_eq_final]
  exact Debugging.forall₂_course (fun _ t silent => hush_perform_silent b thread silent t)
    (fun _ _ _ audible => perform_alike b thread audible) same h

end Session

end Exclusive

end Interlock
