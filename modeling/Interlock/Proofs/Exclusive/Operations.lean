import Interlock.Proofs.Exclusive.Budget

/-!
# The operations of a run

Whatever steps threads take on a lock, and however these end, the mutex sees one operation after the
other.  `Recorded` follows a lock from operation to operation and keeps of each the calls that it
made and the fault that ended it, from the last time on that the counters were cleared.  The steps
of a run tell which operations these are (`Session.recorded`), and the lock follows them
(`Session.recorded_after`), since a step is made of operations, changes of the settings and nothing
else.
-/

namespace Interlock

namespace Exclusive

open Mutex (Call Op)

/-- What a thread may ask of a lock. -/
inductive Operation where
  | acquire
  | tryAcquire
  | release
  deriving DecidableEq, Repr

/-- An operation that was made. -/
structure Record where
  operation : Operation
  /-- The calls of the mutex, first to last. -/
  made : List Call
  /-- The fault that ended the operation, if one did. -/
  fault : Option Fault
  deriving DecidableEq, Repr

/-- The fault that ended an attempt. -/
def Attempt.fault : Attempt → Option Fault
  | .failed f => some f
  | _ => none

/-- The fault that ended an operation. -/
def faultOf {β : Type} : Except Fault β → Option Fault
  | .ok _ => none
  | .error f => some f

/-- The kinds of call that a lock makes of its mutex once it has one. -/
def Operating (op : Op) : Prop := op = .tryLock ∨ op = .lock ∨ op = .unlock

namespace State

variable {σ α : Type} {b : Mutex.Backend σ} {first s t : State σ}

theorem Calls.refl (s : State σ) : Calls [] s s := rfl

theorem Calls.unique {made made' : List Call} (h : Calls made s t) (h' : Calls made' s t) :
    made = made' :=
  List.reverse_inj.1 (List.append_cancel_right (h.symm.trans h'))

/-- An operation on a lock, with the fault that ended it. -/
def operate (b : Mutex.Backend σ) (op : Operation) (s : State σ) : Option Fault × State σ :=
  match op with
  | .acquire => Prod.map Attempt.fault id (s.acquire b)
  | .tryAcquire => Prod.map faultOf id (s.tryAcquire b)
  | .release => Prod.map faultOf id (s.release b)

/-- An operation calls the mutex, and in no other way than a lock in use does. -/
theorem exists_calls (b : Mutex.Backend σ) (op : Operation) (s : State σ) :
    ∃ made, Calls made s (s.operate b op).2 ∧ ∀ c ∈ made, Operating c.op := by
  -- the calls of one operation are known latest first
  have turned {ops : Op → Prop} {well : Bool} (h : Made ops well s (s.operate b op).2)
      (operating : ∀ op, ops op → Operating op) :
      ∃ made, Calls made s (s.operate b op).2 ∧ ∀ c ∈ made, Operating c.op := by
    obtain ⟨made, calls, kinds, -⟩ := h
    refine ⟨made.reverse, ?_, ?_⟩
    · rw [Calls, List.reverse_reverse, calls]
    · intro c hc
      exact operating c.op (kinds c (List.mem_reverse.1 hc))
  cases op with
  | acquire => exact turned (made_acquire b s) fun op h => h.imp_right .inl
  | tryAcquire => exact turned (made_tryAcquire b s) fun op h => h.imp_right .inl
  | release => exact turned (made_release b s) fun op h => .inr (.inr h)

/-! ## Courses -/

/-- A lock that was `first` and has since been operated on, with the operations made after its
counters were last cleared, latest first. -/
inductive Recorded (b : Mutex.Backend σ) (first : State σ) : List Record → State σ → Prop where
  | start : Recorded b first [] first
  | operate {records : List Record} {s : State σ} {made : List Call} (op : Operation)
      (r : Recorded b first records s) (calls : Calls made s (s.operate b op).2) :
      Recorded b first (⟨op, made, (s.operate b op).1⟩ :: records) (s.operate b op).2
  | setDebug {records : List Record} {s : State σ} (on : Bool) (r : Recorded b first records s) :
      Recorded b first records { s with lock.debugging := on }
  | clear {records : List Record} {s : State σ} (r : Recorded b first records s) :
      Recorded b first [] { s with lock := s.lock.clearCounters }

/-- The calls of a whole course, those before the last clearing included. -/
theorem Recorded.exists_calls {records : List Record} (r : Recorded b first records s) :
    ∃ made, Calls made first s ∧ ∀ c ∈ made, Operating c.op := by
  induction r with
  | start => exact ⟨[], rfl, by simp⟩
  | operate op _ calls ih =>
    obtain ⟨earlier, before, kinds⟩ := ih
    obtain ⟨made, later, kinds'⟩ := State.exists_calls b op _
    refine ⟨earlier ++ made, before.trans later, ?_⟩
    intro c hc
    exact (List.mem_append.1 hc).elim (kinds c) (kinds' c)
  | setDebug on _ ih => exact ih
  | clear _ ih => exact ih

/-! ## The record of a step -/

/-- The calls made between two states, first to last. -/
def callsSince (s t : State σ) : List Call :=
  (t.wire.calls.take (t.wire.calls.length - s.wire.calls.length)).reverse

theorem Calls.callsSince_eq {made : List Call} (h : Calls made s t) : s.callsSince t = made := by
  have log : t.wire.calls = made.reverse ++ s.wire.calls := h
  rw [callsSince, log, List.length_append, Nat.add_sub_cancel, List.take_left, List.reverse_reverse]

/-- The record of an operation that is made now. -/
def record (b : Mutex.Backend σ) (op : Operation) (s : State σ) : Record :=
  ⟨op, s.callsSince (s.operate b op).2, (s.operate b op).1⟩

/-- The operations of `withLock`, latest first; `inside` gives those of the code. -/
def recordsWithLock (b : Mutex.Backend σ) (body : State σ → Ending α × State σ)
    (inside : State σ → List Record) (s : State σ) : List Record :=
  match s.acquire b with
  | (.done, t) => (body t).2.record b .release :: (inside t ++ [s.record b .acquire])
  | _ => [s.record b .acquire]

/-- The operations of `probe`, latest first. -/
def recordsProbe (b : Mutex.Backend σ) (s : State σ) : List Record :=
  match s.tryAcquire b with
  | (.ok true, t) => [t.record b .release, s.record b .tryAcquire]
  | _ => [s.record b .tryAcquire]

namespace Recorded

variable {records : List Record}

/-- An operation adds its record. -/
theorem record (r : Recorded b first records s) (op : Operation) :
    Recorded b first (s.record b op :: records) (s.operate b op).2 := by
  obtain ⟨made, calls, -⟩ := State.exists_calls b op s
  rw [State.record, calls.callsSince_eq]
  exact r.operate op calls

theorem acquire (r : Recorded b first records s) :
    Recorded b first (s.record b .acquire :: records) (s.acquire b).2 := r.record .acquire

theorem tryAcquire (r : Recorded b first records s) :
    Recorded b first (s.record b .tryAcquire :: records) (s.tryAcquire b).2 := r.record .tryAcquire

theorem release (r : Recorded b first records s) :
    Recorded b first (s.record b .release :: records) (s.release b).2 := r.record .release

/-- A guarded body adds its records and that of the release. -/
theorem runHeld {body : State σ → Ending α × State σ} {inside : State σ → List Record}
    (kept : ∀ {records t}, Recorded b first records t →
      Recorded b first (inside t ++ records) (body t).2) (r : Recorded b first records s) :
    Recorded b first ((body s).2.record b .release :: (inside s ++ records))
      (s.runHeld b body).2 := by
  have released := (kept r).release
  unfold State.runHeld
  generalize body s = ran at released ⊢
  obtain ⟨ending, t⟩ := ran
  simp only at released ⊢
  generalize t.record b .release = record at released ⊢
  generalize t.release b = gave at released ⊢
  rcases gave with ⟨f | _, u⟩
  · cases ending <;> exact released
  · cases ending <;> exact released

/-- Code under the lock adds its records between those of the acquisition and the release. -/
theorem withLock {body : State σ → Ending α × State σ} {inside : State σ → List Record}
    (kept : ∀ {records t}, Recorded b first records t →
      Recorded b first (inside t ++ records) (body t).2) (r : Recorded b first records s) :
    Recorded b first (s.recordsWithLock b body inside ++ records) (s.withLock b body).2 := by
  have acquired := r.acquire
  unfold State.recordsWithLock State.withLock
  generalize s.record b .acquire = record at acquired ⊢
  generalize s.acquire b = got at acquired ⊢
  rcases got with ⟨_ | left | f, t⟩
  · simpa using acquired.runHeld kept
  · exact acquired
  · exact acquired

/-- Probing adds the records of an attempt and, if that was granted, of a release. -/
theorem probe (r : Recorded b first records s) :
    Recorded b first (s.recordsProbe b ++ records) (s.probe b).2 := by
  have tried := r.tryAcquire
  unfold State.recordsProbe State.probe
  generalize s.record b .tryAcquire = record at tried ⊢
  generalize s.tryAcquire b = got at tried ⊢
  rcases got with ⟨f | ⟨_ | _⟩, t⟩
  · exact tried
  · exact tried
  · have released := tried.release
    simp only [List.cons_append, List.nil_append] at released ⊢
    generalize t.record b .release = record' at released ⊢
    generalize t.release b = gave at released ⊢
    rcases gave with ⟨f | _, u⟩
    · exact released
    · exact released

end Recorded

end State

/-! ## Steps -/

namespace Session

variable {σ α : Type} {b : Mutex.Backend σ} {first : State σ}

/-- Takes steps, each of some thread, one after the other. -/
def after (b : Mutex.Backend σ) (steps : List (Nat × Step α)) (s : Session σ) : Session σ :=
  steps.foldl (fun s step => (s.perform b step.1 step.2).2) s

theorem state_settle (thread : Nat) (s : Session σ) (r : Attempt × State σ) :
    (s.settle thread r : Reply α × Session σ).2.state = r.2 := by
  rcases r with ⟨_ | _ | _, t⟩ <;> rfl

/-- The operations of a step, latest first. -/
def records (b : Mutex.Backend σ) (step : Step α) (s : Session σ) : List Record :=
  match step with
  | .lock | .guard => [s.state.record b .acquire]
  | .tryLock | .tryGuard => [s.state.record b .tryAcquire]
  | .unlock => [s.state.record b .release]
  | .dropGuard => if s.guards = 0 then [] else [s.state.record b .release]
  | .withLock body => s.state.recordsWithLock b (fun state => (body, state)) fun _ => []
  | .guardScope (.ok ()) => s.state.recordsWithLock b (State.probe b) (State.recordsProbe b)
  | .guardScope (.error payload) =>
    s.state.recordsWithLock b (fun state => ((.error payload : Ending Bool), state)) fun _ => []
  | .tryGuardScope => s.state.recordsProbe b
  | .setDebug _ | .clear | .render => []

end Session

/-- What is left of the records when a step begins: they are given up when the counters are cleared,
and only then. -/
def Step.keep {α : Type} (records : List Record) : Step α → List Record
  | .clear => []
  | _ => records

namespace Session

variable {σ α : Type} {b : Mutex.Backend σ} {first : State σ}

/-- The operations of these steps since the counters were last cleared, latest first, behind those
of `records`. -/
def recorded (b : Mutex.Backend σ) (records : List Record) (s : Session σ) :
    List (Nat × Step α) → List Record
  | [] => records
  | (thread, step) :: steps =>
    recorded b (s.records b step ++ step.keep records) (s.perform b thread step).2 steps

/-- A step adds the records of its operations, and `clear` drops all. -/
theorem recorded_perform {s : Session σ} {records : List Record}
    (r : State.Recorded b first records s.state) (thread : Nat) (step : Step α) :
    State.Recorded b first (s.records b step ++ step.keep records)
      (s.perform b thread step).2.state := by
  cases step with
  | lock =>
    rw [perform, state_settle]
    exact r.acquire
  | tryLock => exact r.tryAcquire
  | unlock => exact r.release
  | guard =>
    have acquired := r.acquire
    simp only [Session.records, perform]
    generalize s.state.record b .acquire = record at acquired ⊢
    generalize s.state.acquire b = got at acquired ⊢
    rcases got with ⟨_ | left | f, t⟩ <;> exact acquired
  | tryGuard =>
    have tried := r.tryAcquire
    simp only [Session.records, perform]
    generalize s.state.record b .tryAcquire = record at tried ⊢
    generalize s.state.tryAcquire b = got at tried ⊢
    rcases got with ⟨f | ⟨_ | _⟩, t⟩ <;> exact tried
  | dropGuard =>
    obtain ⟨state, guards, waiting⟩ := s
    cases guards with
    | zero => exact r
    | succ guards => exact r.release
  | withLock body => exact r.withLock fun kept => kept
  | guardScope body =>
    cases body with
    | ok value => exact r.withLock fun kept => kept.probe
    | error payload => exact r.withLock fun kept => kept
  | tryGuardScope =>
    have probed := r.probe
    simp only [Session.records, perform]
    generalize s.state.recordsProbe b = made at probed ⊢
    generalize s.state.probe b = got at probed ⊢
    rcases got with ⟨payload | free, t⟩ <;> exact probed
  | setDebug on => exact r.setDebug on
  | clear => exact r.clear
  | render => exact r

/-- The record of a run is one of how its lock came to be what it is. -/
theorem recorded_after {s : Session σ} {records : List Record}
    (r : State.Recorded b first records s.state) (steps : List (Nat × Step α)) :
    State.Recorded b first (recorded b records s steps) (s.after b steps).state := by
  induction steps generalizing s records with
  | nil => exact r
  | cons step steps ih => exact ih (recorded_perform r step.1 step.2)

end Session

end Exclusive

end Interlock
