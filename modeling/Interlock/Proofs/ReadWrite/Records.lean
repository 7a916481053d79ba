import Interlock.Proofs.ReadWrite.Attempts
import Interlock.Proofs.ReadWrite.Lawful

/-!
# The operations of a run

The raw lock keeps one log of its calls, in which the operations of a thread follow each other
without a mark.  The steps of a run tell where one ends and the next one begins: `Session.records`
gives the calls of each operation that a step makes, and `Session.recorded` those of a whole run
since its last `clear`.

`Session.Recorded` is what may be recorded of a lock from one operation to the next.  The records of
a run are such (`Session.recorded_run`), so that they leave out no call and add none.
-/

namespace Interlock.ReadWrite

/-- The calls made between two states, first to last. -/
def State.callsSince {σ : Type} (s t : State σ) : List RawCall :=
  (t.calls.take (t.calls.length - s.calls.length)).reverse

theorem State.Since.callsSince_eq {σ : Type} {s t : State σ} {made : List RawCall}
    (h : s.Since t made) : s.callsSince t = made := by
  have log : t.calls = made.reverse ++ s.calls := h
  rw [callsSince, log, List.length_append, Nat.add_sub_cancel, List.take_left, List.reverse_reverse]

namespace Session

variable {σ α β : Type} {raw : Raw σ} {thread : Nat} {first s t : Session σ}

/-! ## The record of a step -/

/-- The calls of an operation that is made now. -/
def record (raw : Raw σ) (thread : Nat) (op : Operation) (s : Session σ) : List RawCall :=
  s.system.state.callsSince (s.call raw thread op).2.system.state

/-- The operations of `enter`, latest first. -/
def recordsEnter (raw : Raw σ) (thread : Nat) (scope : Scope) (s : Session σ) :
    List (List RawCall) :=
  match s.call raw thread (.acquire (.waitFor scope.mode)) with
  | (some (.acquired _), t) =>
    if scope = .lowered then
      [t.record raw thread .downgrade, s.record raw thread (.acquire (.waitFor scope.mode))]
    else [s.record raw thread (.acquire (.waitFor scope.mode))]
  | _ => [s.record raw thread (.acquire (.waitFor scope.mode))]

/-- The operations of `within`, latest first; `inside` gives those of the code. -/
def recordsWithin (raw : Raw σ) (thread : Nat) (scope : Scope)
    (body : Session σ → Ending β × Session σ) (inside : Session σ → List (List RawCall))
    (s : Session σ) : List (List RawCall) :=
  match s.enter raw thread scope with
  | (some (.failed _), _) => s.recordsEnter raw thread scope
  | (some _, t) =>
    (body t).2.record raw thread .release :: (inside t ++ s.recordsEnter raw thread scope)
  | (none, _) => s.recordsEnter raw thread scope

/-- The operations of `probe`, latest first. -/
def recordsProbe (raw : Raw σ) (thread : Nat) (mode : Mode) (s : Session σ) :
    List (List RawCall) :=
  match s.call raw thread (.acquire (.tryFor mode)) with
  | (some (.acquired level), t) =>
    if level.isLocked then
      [t.record raw thread .release, s.record raw thread (.acquire (.tryFor mode))]
    else [s.record raw thread (.acquire (.tryFor mode))]
  | _ => [s.record raw thread (.acquire (.tryFor mode))]

/-- The operations of `inScope`, latest first. -/
def recordsInScope (raw : Raw σ) (thread : Nat) (body : Ending Unit) (s : Session σ) :
    List (List RawCall) :=
  match body with
  | .error _ => []
  | .ok () =>
    (s.probe raw thread .read).2.recordsProbe raw thread .write ++ s.recordsProbe raw thread .read

/-- The operations of a step, latest first, each with its calls. -/
def records (raw : Raw σ) (thread : Nat) (step : Step α) (s : Session σ) : List (List RawCall) :=
  match step with
  | .acquire strategy => [s.record raw thread (.acquire strategy)]
  | .release => [s.record raw thread .release]
  | .downgrade => [s.record raw thread .downgrade]
  | .guard mode => [s.record raw thread (.acquire (.waitFor mode))]
  | .tryGuard mode => [s.record raw thread (.acquire (.tryFor mode))]
  | .dropGuard => if s.guards.isEmpty then [] else [s.record raw thread .release]
  | .downgradeGuard =>
    match s.guards with
    | .write :: _ => [s.record raw thread .downgrade]
    | _ => []
  | .withLock body => s.recordsWithin raw thread .write (fun t => (body, t)) fun _ => []
  | .scope scope body =>
    s.recordsWithin raw thread scope (inScope raw thread body) (recordsInScope raw thread body)
  | .setDebug _ | .clear | .render => []

end Session

/-- What is left of the records when a step begins: they are given up when the counters are cleared,
and only then. -/
def Step.keep {α : Type} (records : List (List RawCall)) : Step α → List (List RawCall)
  | .clear => []
  | _ => records

namespace Session

variable {σ α β : Type} {raw : Raw σ} {thread : Nat} {first s t : Session σ}

/-- The operations of these steps since the counters were last cleared, latest first, behind those
of `records`. -/
def recorded (raw : Raw σ) (thread : Nat) (records : List (List RawCall)) (s : Session σ) :
    List (Step α) → List (List RawCall)
  | [] => records
  | step :: steps =>
    recorded raw thread (s.records raw thread step ++ step.keep records)
      (s.perform raw thread step).2 steps

/-! ## Courses -/

/-- The sessions between two operations of a thread that uses the lock alone, from `first` on, with
the calls of each operation since the counters were last cleared, latest first. -/
inductive Recorded (raw : Raw σ) (thread : Nat) (first : Session σ) :
    List (List RawCall) → Session σ → Prop
  | start : Recorded raw thread first [] first
  | call {records : List (List RawCall)} {s : Session σ} {made : List RawCall} (op : Operation)
      (r : Recorded raw thread first records s)
      (since : s.system.state.Since (s.call raw thread op).2.system.state made) :
      Recorded raw thread first (made :: records) (s.call raw thread op).2
  | keep {records : List (List RawCall)} {s : Session σ} (guards : List Mode)
      (r : Recorded raw thread first records s) :
      Recorded raw thread first records { s with guards }
  | setDebug {records : List (List RawCall)} {s : Session σ} (on : Bool)
      (r : Recorded raw thread first records s) :
      Recorded raw thread first records (s.modify fun l => { l with debugging := on })
  | clear {records : List (List RawCall)} {s : Session σ}
      (r : Recorded raw thread first records s) :
      Recorded raw thread first [] (s.modify clearCounters)

/-- An operation adds its calls to the log. -/
theorem since_call (raw : Raw σ) (thread : Nat) (op : Operation) (s : Session σ) :
    s.system.state.Since (s.call raw thread op).2.system.state (s.record raw thread op) := by
  have added : ∃ made,
      s.system.state.Since (s.call raw thread op).2.system.state made := by
    have begun : (s.system.start thread op).state = s.system.state := by
      unfold System.start
      split <;> rfl
    show ∃ made, s.system.state.Since
      ((s.system.start thread op).advance raw .numbered thread).state made
    unfold System.advance
    split
    · exact ⟨[], congrArg State.calls begun⟩
    · next a _ =>
      rw [begun]
      obtain ⟨n, driven⟩ := exists_walk_of_drive raw (Tokens.numbered.of thread)
        (fuel raw s.system.state) (s.system.state, a)
      obtain ⟨made, split⟩ := calls_suffix_walk n (s.system.state, a)
      refine ⟨made.reverse, ?_⟩
      rw [driven, State.Since, List.reverse_reverse]
      exact split.symm
  obtain ⟨made, since⟩ := added
  rwa [record, since.callsSince_eq]

namespace Recorded

variable {records : List (List RawCall)}

theorem visited (r : Recorded raw thread first records s) : Visited raw thread first s := by
  induction r with
  | start => exact .start
  | call op _ _ ih => exact ih.call op
  | keep guards _ ih => exact ih.keep guards
  | setDebug on _ ih => exact ih.setDebug on
  | clear _ ih => exact ih.clear

theorem operate (r : Recorded raw thread first records s) (op : Operation) :
    Recorded raw thread first (s.record raw thread op :: records) (s.call raw thread op).2 :=
  r.call op (since_call raw thread op s)

theorem of_call {op : Operation} {result : Option Result} (r : Recorded raw thread first records s)
    (called : s.call raw thread op = (result, t)) :
    Recorded raw thread first (s.record raw thread op :: records) t := by
  have after := r.operate op
  rwa [called] at after

/-- Entering a scope adds the records of its operations. -/
theorem enter (r : Recorded raw thread first records s) (scope : Scope) :
    Recorded raw thread first (s.recordsEnter raw thread scope ++ records)
      (s.enter raw thread scope).2 := by
  have acquired := r.operate (.acquire (.waitFor scope.mode))
  unfold recordsEnter Session.enter
  generalize s.record raw thread (.acquire (.waitFor scope.mode)) = made at acquired ⊢
  generalize s.call raw thread (.acquire (.waitFor scope.mode)) = gave at acquired ⊢
  rcases gave with ⟨_ | result, t⟩
  · exact acquired
  · cases result with
    | acquired level =>
      simp only
      split
      · exact acquired.operate .downgrade
      · exact acquired
    | released | lowered | failed f => exact acquired

/-- A guarded body adds its records and that of the release. -/
theorem runHeld {body : Session σ → Ending β × Session σ}
    {inside : Session σ → List (List RawCall)} (r : Recorded raw thread first records s)
    (kept : ∀ {records s}, Recorded raw thread first records s →
      Recorded raw thread first (inside s ++ records) (body s).2) :
    Recorded raw thread first ((body s).2.record raw thread .release :: (inside s ++ records))
      (s.runHeld raw thread body).2 := by
  have after := (kept r).operate .release
  simp only [Session.runHeld]
  split <;> exact after

/-- Code in a scope adds its records between those of entering and leaving. -/
theorem within {body : Session σ → Ending β × Session σ}
    {inside : Session σ → List (List RawCall)} (r : Recorded raw thread first records s)
    (scope : Scope)
    (kept : ∀ {records s}, Recorded raw thread first records s →
      Recorded raw thread first (inside s ++ records) (body s).2) :
    Recorded raw thread first (s.recordsWithin raw thread scope body inside ++ records)
      (s.within raw thread scope body).2 := by
  have entered := r.enter scope
  unfold recordsWithin Session.within
  generalize s.recordsEnter raw thread scope = before at entered ⊢
  generalize s.enter raw thread scope = gave at entered ⊢
  rcases gave with ⟨_ | result, t⟩
  · exact entered
  · have inner := entered.runHeld kept
    cases result with
    | failed f => exact entered
    | acquired level | released | lowered => simpa using inner

/-- Probing adds the records of an attempt and, if that was granted, of a release. -/
theorem probe (r : Recorded raw thread first records s) (mode : Mode) :
    Recorded raw thread first (s.recordsProbe raw thread mode ++ records)
      (s.probe raw thread mode).2 := by
  have acquired := r.operate (.acquire (.tryFor mode))
  unfold recordsProbe Session.probe
  generalize s.record raw thread (.acquire (.tryFor mode)) = made at acquired ⊢
  generalize s.call raw thread (.acquire (.tryFor mode)) = gave at acquired ⊢
  rcases gave with ⟨_ | result, t⟩
  · exact acquired
  · cases result with
    | acquired level =>
      simp only
      split
      · exact acquired.operate .release
      · exact acquired
    | released | lowered | failed f => exact acquired

theorem inScope (r : Recorded raw thread first records s) (body : Ending Unit) :
    Recorded raw thread first (recordsInScope raw thread body s ++ records)
      (s.inScope raw thread body).2 := by
  cases body with
  | error payload => exact r
  | ok nothing =>
    have probed := (r.probe .read).probe .write
    rwa [← List.append_assoc] at probed

/-- A step adds the records of its operations, and `clear` drops all. -/
theorem perform (r : Recorded raw thread first records s) (step : Step α) :
    Recorded raw thread first (s.records raw thread step ++ step.keep records)
      (s.perform raw thread step).2 := by
  cases step with
  | acquire strategy => exact r.operate _
  | release | downgrade => exact r.operate _
  | guard mode =>
    simp only [Session.perform]
    split
    · next called => exact (r.of_call called).keep _
    · next called => exact r.of_call called
  | tryGuard mode =>
    simp only [Session.perform]
    split
    · next called =>
      split
      · exact (r.of_call called).keep _
      · exact r.of_call called
    · next called => exact r.of_call called
  | dropGuard =>
    obtain ⟨system, guards⟩ := s
    cases guards with
    | nil => exact r
    | cons mode guards =>
      simp only [Session.perform]
      split
      · next called => exact (r.keep guards).of_call called
      · next called => exact (r.keep guards).of_call called
      · next called => exact (r.keep guards).of_call called
  | downgradeGuard =>
    obtain ⟨system, guards⟩ := s
    cases guards with
    | nil => exact r
    | cons mode guards =>
      cases mode with
      | read => exact r
      | write =>
        simp only [Session.perform]
        split
        · next called => exact ((r.keep guards).of_call called).keep _
        · next called => exact (r.keep guards).of_call called
  | withLock body => exact r.within .write fun kept => kept
  | scope scope body => exact r.within scope fun kept => kept.inScope body
  | setDebug on => exact r.setDebug on
  | clear => exact r.clear
  | render => exact r

end Recorded

/-- The record of a run is one of how its lock came to be what it is. -/
theorem recorded_run {records : List (List RawCall)} (r : Recorded raw thread first records s)
    (steps : List (Step α)) :
    Recorded raw thread first (recorded raw thread records s steps)
      (s.run raw thread steps).2 := by
  induction steps generalizing s records with
  | nil => exact r
  | cons step steps ih => exact ih (r.perform step)

end Session

end Interlock.ReadWrite
