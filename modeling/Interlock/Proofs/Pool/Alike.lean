import Interlock.Pool.Session
import Interlock.Proofs.Pool.Progress
import Interlock.Proofs.Pool.Waking

/-!
# Pools that differ in wake-ups

Two pools are alike if they agree on everything, except that some workers which wait in the one have
been notified in the other, where there may be calls besides that only signal (`Alike`).  A step of
the same call or the same worker takes two such pools to two such pools (`Alike.step_call`,
`Alike.stepWorker`): nothing that a step reads tells them apart, but the place of a worker that was
notified.
-/

namespace Interlock.Pool

variable {p q : Pool} {log : Array (Thread × Log.Line)} {a : Action} {k : Nat} {c : Call}

/-! ## Calls that only signal -/

/-- Whether a call does nothing but signal a slot. -/
def Activity.isWake : Activity → Bool
  | .nudging _ => true
  | _ => false

/-- Which calls do nothing but signal a slot. -/
def wakes (p : Pool) : List Bool := p.calls.toList.map (·.activity.isWake)

/-- Whether there is a call of this number that does more than signal a slot. -/
def isPlain (p : Pool) (k : Nat) : Bool := p.wakes[k]? == some false

/-- The number of a call when those that only signal are left out. -/
def rank (p : Pool) (k : Nat) : Nat := (p.wakes.take k).count false

/-- The pool without the calls that only signal. -/
def quiet (p : Pool) : Pool := { p with calls := p.calls.filter (!·.activity.isWake) }

/-- Whether a request does nothing but signal a slot. -/
def Request.isWake : Request → Bool
  | .wake _ => true
  | _ => false

theorem isPlain_iff :
    p.isPlain k = true ↔ ∃ c, p.calls[k]? = some c ∧ c.activity.isWake = false := by
  simp [isPlain, wakes]

section Filter

variable {α : Type} {f : α → Bool} {l : List α} {k : Nat} {a b : α}

/-- An element that stays in a filtered list is found there by its rank. -/
theorem getElem?_filter_rank (ha : l[k]? = some a) (plain : f a = false) :
    (l.filter (!f ·))[((l.map f).take k).count false]? = some a := by
  induction l generalizing k with
  | nil => simp at ha
  | cons x l ih =>
    cases k with
    | zero =>
      obtain rfl : x = a := by simpa using ha
      simp [plain]
    | succ k =>
      have found := ih (by simpa using ha)
      cases hx : f x <;> simp [hx, found]

/-- Replacing an element that stays is replacing it at its rank. -/
theorem set_filter_rank (ha : l[k]? = some a) (plain : f a = false) (still : f b = false) :
    (l.set k b).filter (!f ·) = (l.filter (!f ·)).set (((l.map f).take k).count false) b := by
  induction l generalizing k with
  | nil => simp at ha
  | cons x l ih =>
    cases k with
    | zero =>
      obtain rfl : x = a := by simpa using ha
      simp [plain, still]
    | succ k =>
      have set := ih (by simpa using ha)
      cases hx : f x <;> simp [hx, set]

/-- Replacing an element that is left out changes nothing in the filtered list. -/
theorem set_filter_of_wake (ha : l[k]? = some a) (wake : f a = true) (still : f b = true) :
    (l.set k b).filter (!f ·) = l.filter (!f ·) := by
  induction l generalizing k with
  | nil => simp at ha
  | cons x l ih =>
    cases k with
    | zero =>
      obtain rfl : x = a := by simpa using ha
      simp [wake, still]
    | succ k =>
      have set := ih (by simpa using ha)
      cases hx : f x <;> simp [hx, set]

end Filter

/-! ## Calls keep their kind -/

theorem isWake_roused (c : Call) : c.roused.activity.isWake = c.activity.isWake := by
  unfold Call.roused
  split
  · next asleep => rw [asleep]; rfl
  · rfl

theorem isOver_roused (c : Call) : c.roused.activity.isOver = c.activity.isOver := by
  unfold Call.roused
  split
  · next asleep => rw [asleep]; rfl
  · rfl

/-- A call that goes on remains of its kind, and has returned if it had before. -/
theorem Sound.call_step (h : p.Sound) (a : Action) (hc : p.calls[k]? = some c) :
    ∃ c', (p.step a).calls[k]? = some c' ∧ c'.activity.isWake = c.activity.isWake ∧
      (c.activity.isOver = true → c'.activity.isOver = true) := by
  by_cases own : a = .call k
  · subst own
    cases hs : c.activity with
    | submitting job s =>
      obtain ⟨-, m⟩ := h.move_submission c.thread (⟨c, hc, hs⟩ : p.Submits k job s)
      rw [step_submitting hc hs]
      refine ⟨_, getElem?_putCall_self (by rwa [m.calls_eq]), rfl, fun ended => ?_⟩
      cases s <;> first | exact ended | cases ended
    | reaping r =>
      obtain ⟨-, m⟩ := h.move_reaping c.thread
        (List.mem_append_right _ (mem_callers.2 ⟨k, c, hc, hs⟩) : r ∈ p.reapers)
      rw [step_reaping hc hs]
      refine ⟨_, getElem?_putCall_self (m.own_call hc hs), rfl, fun ended => ?_⟩
      cases r <;> first | exact ended | cases ended
    | nudging n =>
      refine ⟨_, calls_step_own hc hs, rfl, fun ended => ?_⟩
      cases n <;> first | exact ended | cases ended
  · rcases (h.move_step a).2.call_kept own hc with same | roused
    · exact ⟨c, same, rfl, id⟩
    · exact ⟨c.roused, roused, isWake_roused c, fun ended => by rwa [isOver_roused]⟩

theorem wakes_getElem? (p : Pool) (k : Nat) :
    p.wakes[k]? = (p.calls[k]?).map (·.activity.isWake) := by
  simp [wakes]

theorem length_wakes (p : Pool) : p.wakes.length = p.calls.size := by simp [wakes]

/-- A step of what is under way does not change which calls only signal. -/
theorem Sound.wakes_step (h : p.Sound) (called : ∀ thread request, a ≠ .begin thread request) :
    (p.step a).wakes = p.wakes := by
  refine List.ext_getElem? fun k => ?_
  rw [wakes_getElem?, wakes_getElem?]
  cases hc : p.calls[k]? with
  | some c =>
    obtain ⟨c', hc', kind, -⟩ := h.call_step a hc
    rw [hc', Option.map_some, Option.map_some, kind]
  | none =>
    have size := (h.move_step a).2.calls_size_eq called
    rw [Array.getElem?_eq_none_iff, ← size] at hc
    rw [Array.getElem?_eq_none hc]

theorem wakes_begin (ready : p.creation = .ready) (thread : Thread) (request : Request) :
    (p.step (.begin thread request)).wakes = p.wakes ++ [request.isWake] := by
  rw [step, if_pos ready]
  cases request <;> simp [wakes, beginCall, addCall, addJob, Request.isWake, Activity.isWake]

/-- Numbers of calls are not disturbed by calls that are made later. -/
theorem rank_of_append {later : List Bool} (h : q.wakes = p.wakes ++ later)
    (old : k ≤ p.calls.size) : q.rank k = p.rank k := by
  rw [rank, rank, h, List.take_append_of_le_length (by rwa [length_wakes])]

theorem isPlain_of_append {later : List Bool} (h : q.wakes = p.wakes ++ later)
    (old : k < p.calls.size) : q.isPlain k = p.isPlain k := by
  rw [isPlain, isPlain, h, List.getElem?_append_left (by rwa [length_wakes])]

theorem rank_congr (h : q.wakes = p.wakes) (k : Nat) : q.rank k = p.rank k := by
  rw [rank, rank, h]

theorem isPlain_congr (h : q.wakes = p.wakes) (k : Nat) : q.isPlain k = p.isPlain k := by
  rw [isPlain, isPlain, h]

/-! ## Pools that are alike -/

/-- The second pool is the first one, but for workers that were notified, and for calls that only
signal. -/
structure Alike (p q : Pool) : Prop where
  rest : q = { p with workers := q.workers, calls := q.calls }
  workers : Undisturbed p q
  calls : p.calls.toList = q.calls.toList.filter (!·.activity.isWake)

namespace Alike

variable (h : Alike p q)

include h

theorem exists_eq : ∃ workers calls, q = { p with workers, calls } := ⟨_, _, h.rest⟩

/-! ### Small changes -/

theorem report (who : Thread) (line : Log.Line) :
    Alike (p.report who line) (q.report who line) := by
  obtain ⟨workers, calls, rfl⟩ := h.exists_eq
  exact ⟨rfl, h.workers, h.calls⟩

theorem note (who : Thread) (text : String) : Alike (p.note who text) (q.note who text) := by
  obtain ⟨workers, calls, rfl⟩ := h.exists_eq
  unfold Pool.note
  dsimp only
  split
  · exact h.report who _
  · exact h

theorem reportAll (who : Thread) (lines : List Log.Line) :
    Alike (p.reportAll who lines) (q.reportAll who lines) := by
  induction lines generalizing p q with
  | nil => exact h
  | cons line lines ih => exact ih (h.report who line)

/-- A change of a worker that does not mind its being notified. -/
theorem updateWorker (i : Nat) {f : Worker → Worker}
    (hf : ∀ w, f w.notified = f w ∨ f w.notified = (f w).notified) :
    Alike (p.updateWorker i f) (q.updateWorker i f) := by
  obtain ⟨workers, calls, rfl⟩ := h.exists_eq
  refine ⟨rfl, fun j => ?_, h.calls⟩
  have same := h.workers j
  dsimp only [Pool.updateWorker] at same ⊢
  by_cases own : i = j
  · subst own
    rw [List.getElem?_modify_eq, List.getElem?_modify_eq]
    rcases same with same | woken
    · exact .inl (by rw [same])
    · rw [woken]
      cases p.workers[i]? with
      | none => exact .inl rfl
      | some w => exact (hf w).imp (congrArg some) (congrArg some)
  · rwa [List.getElem?_modify_ne _ _ own, List.getElem?_modify_ne _ _ own]

theorem setPhase (i : Nat) (phase : Worker.Phase) :
    Alike (p.setPhase i phase) (q.setPhase i phase) :=
  h.updateWorker i fun w => .inl (by unfold Worker.notified; split <;> rfl)

theorem setStatus (i : Nat) (status : Worker.Status) :
    Alike (p.setStatus i status) (q.setStatus i status) :=
  h.updateWorker i fun w => .inr (by obtain ⟨slot, phase, exit⟩ := w; cases phase <;> rfl)

theorem setCell (i : Nat) (cell : Option Nat) : Alike (p.setCell i cell) (q.setCell i cell) :=
  h.updateWorker i fun w => .inr (by obtain ⟨slot, phase, exit⟩ := w; cases phase <;> rfl)

/-- A signal to a slot keeps two pools alike. -/
theorem notify (i : Nat) : Alike (p.notify i) (q.notify i) := by
  have woken := h.updateWorker i (f := Worker.notified) fun w => .inl (by
    unfold Worker.notified
    cases hphase : w.phase <;> simp [hphase])
  obtain ⟨workers, calls, rfl⟩ := h.exists_eq
  exact ⟨rfl, woken.workers, woken.calls⟩

theorem pushIdle (who : Thread) (i : Nat) : Alike (p.pushIdle who i) (q.pushIdle who i) := by
  have size := h.workers.size_eq
  obtain ⟨workers, calls, rfl⟩ := h.exists_eq
  unfold Pool.pushIdle
  rw [size]
  dsimp only
  split
  · exact ⟨rfl, h.workers, h.calls⟩
  · exact h.report who _

/-- Alike pools have the same slots. -/
theorem slot_eq (i : Nat) : (q.workers[i]?).map (·.slot) = (p.workers[i]?).map (·.slot) := by
  rcases h.workers i with same | woken
  · rw [same]
  · rw [woken, Option.map_map]
    exact congrArg (Option.map · _) (funext slot_notified)

/-- Alike pools answer an attempt to change a status alike, and stay alike. -/
theorem advance (who : Thread) (i : Nat) (source target : Worker.Status) :
    (q.advance who i source target).1 = (p.advance who i source target).1 ∧
      Alike (p.advance who i source target).2 (q.advance who i source target).2 := by
  have slots := h.slot_eq i
  unfold Pool.advance
  cases hw : p.workers[i]? with
  | none =>
    rw [hw, Option.map_none, Option.map_eq_none_iff] at slots
    rw [slots]
    exact ⟨rfl, h⟩
  | some w =>
    rw [hw, Option.map_some, Option.map_eq_some_iff] at slots
    obtain ⟨x, hx, slot⟩ := slots
    rw [hx]
    dsimp only
    rw [slot]
    cases w.slot.status.move source target with
    | ok status => exact ⟨rfl, (h.setStatus i status).note who _⟩
    | error m => exact ⟨rfl, h.report who _⟩

theorem notifyReaped : Alike p.notifyReaped q.notifyReaped := by
  have calls := h.calls
  obtain ⟨workers, calls', rfl⟩ := h.exists_eq
  refine ⟨rfl, h.workers, ?_⟩
  show (p.calls.map Call.roused).toList = (calls'.map Call.roused).toList.filter _
  rw [Array.toList_map, Array.toList_map, calls, List.filter_map]
  simp only [Function.comp_def, isWake_roused]

/-! ### Steps -/

/-- Signalling a slot goes the same way in alike pools. -/
theorem stepNudge (n : Nudge) :
    (q.stepNudge n).1 = (p.stepNudge n).1 ∧ Alike (p.stepNudge n).2 (q.stepNudge n).2 := by
  cases n with
  | looking i =>
    have slots := h.slot_eq i
    simp only [Pool.stepNudge]
    cases hw : p.workers[i]? with
    | none =>
      rw [hw, Option.map_none, Option.map_eq_none_iff] at slots
      rw [slots]
      exact ⟨rfl, h⟩
    | some w =>
      rw [hw, Option.map_some, Option.map_eq_some_iff] at slots
      obtain ⟨x, hx, slot⟩ := slots
      rw [hx]
      dsimp only
      rw [slot]
      exact ⟨rfl, h⟩
  | notifying i => exact ⟨rfl, h.notify i⟩
  | done reached => exact ⟨rfl, h⟩

/-- Submitting goes the same way in alike pools. -/
theorem stepSubmission (who : Thread) (job : Nat) (s : Submission) :
    (q.stepSubmission who job s).1 = (p.stepSubmission who job s).1 ∧
      Alike (p.stepSubmission who job s).2 (q.stepSubmission who job s).2 := by
  cases s with
  | holding i =>
    have returned := h.pushIdle who i
    obtain ⟨place, moved⟩ := h.advance who i .sleeping .wakeRequested
    have same : q.control = p.control := by rw [h.rest]
    simp only [Pool.stepSubmission]
    rw [same]
    split
    · exact ⟨rfl, returned⟩
    · generalize p.advance who i .sleeping .wakeRequested = a at place moved ⊢
      generalize q.advance who i .sleeping .wakeRequested = b at place moved ⊢
      obtain ⟨x, p⟩ := a
      obtain ⟨y, q⟩ := b
      obtain rfl : y = x := place
      cases y with
      | none => exact ⟨rfl, moved.setCell i _⟩
      | some payload => exact ⟨rfl, moved⟩
  | nudging i n =>
    obtain ⟨place, moved⟩ := h.stepNudge n
    simp only [Pool.stepSubmission]
    generalize p.stepNudge n = a at place moved ⊢
    generalize q.stepNudge n = b at place moved ⊢
    obtain ⟨x, p⟩ := a
    obtain ⟨y, q⟩ := b
    obtain rfl : y = x := place
    cases y <;> exact ⟨rfl, moved⟩
  | popping waited =>
    obtain ⟨workers, calls, rfl⟩ := h.exists_eq
    simp only [Pool.stepSubmission]
    split
    · exact ⟨rfl, rfl, h.workers, h.calls⟩
    · exact ⟨rfl, h⟩
  | counting =>
    obtain ⟨workers, calls, rfl⟩ := h.exists_eq
    exact ⟨rfl, rfl, h.workers, h.calls⟩
  | arriving waited =>
    obtain ⟨workers, calls, rfl⟩ := h.exists_eq
    exact ⟨rfl, h⟩
  | parking | accepted | refused | broken => exact ⟨rfl, h⟩

/-- Alike pools have the same workers ended, with the same ends. -/
theorem ended?_eq (i : Nat) :
    (q.workers[i]?).bind (·.ended?) = (p.workers[i]?).bind (·.ended?) := by
  rcases h.workers i with same | woken
  · rw [same]
  · rw [woken]
    cases p.workers[i]? with
    | none => rfl
    | some w => exact ended?_notified w

/-- Tearing down goes the same way in alike pools. -/
theorem stepReaping (who : Thread) (r : Reaping) :
    (q.stepReaping who r).1 = (p.stepReaping who r).1 ∧
      Alike (p.stepReaping who r).2 (q.stepReaping who r).2 := by
  have size := h.workers.size_eq
  cases r with
  | nudging i n =>
    obtain ⟨place, moved⟩ := h.stepNudge n
    simp only [Pool.stepReaping]
    generalize p.stepNudge n = a at place moved ⊢
    generalize q.stepNudge n = b at place moved ⊢
    obtain ⟨x, p⟩ := a
    obtain ⟨y, q⟩ := b
    obtain rfl : y = x := place
    cases y with
    | done => exact ⟨by dsimp only; rw [moved.workers.size_eq], moved⟩
    | _ => exact ⟨rfl, moved⟩
  | broadcasting =>
    exact ⟨congrArg (Reaping.nudgeFrom · 0) size, h⟩
  | joining left joined =>
    cases left with
    | nil => exact ⟨rfl, h⟩
    | cons i left =>
      simp only [Pool.stepReaping, h.ended?_eq i]
      cases (p.workers[i]?).bind (·.ended?) with
      | none => exact ⟨rfl, h⟩
      | some payload =>
        cases payload with
        | none => exact ⟨rfl, h⟩
        | some payload => exact ⟨rfl, h.report who _⟩
  | draining joined =>
    obtain ⟨workers, calls, rfl⟩ := h.exists_eq
    simp only [Pool.stepReaping]
    split
    · exact ⟨rfl, h⟩
    · exact ⟨rfl, rfl, h.workers, h.calls⟩
  | publishing joined =>
    obtain ⟨workers, calls, rfl⟩ := h.exists_eq
    have told : Alike { p with reaped := true } { p with reaped := true, workers, calls } :=
      ⟨rfl, h.workers, h.calls⟩
    exact ⟨rfl, told.notifyReaped⟩
  | reporting joined => exact ⟨rfl, h.report who _⟩
  | cancelling =>
    obtain ⟨workers, calls, rfl⟩ := h.exists_eq
    have changed : Alike { p with control := p.control.cancelReaping.2 }
        { p with control := p.control.cancelReaping.2, workers, calls } :=
      ⟨rfl, h.workers, h.calls⟩
    exact ⟨rfl, changed.reportAll who _⟩
  | marking joined =>
    obtain ⟨workers, calls, rfl⟩ := h.exists_eq
    have changed : Alike { p with control := p.control.markReaped.2 }
        { p with control := p.control.markReaped.2, workers, calls } :=
      ⟨rfl, h.workers, h.calls⟩
    exact ⟨rfl, changed.reportAll who _⟩
  | yielding joined =>
    obtain ⟨workers, calls, rfl⟩ := h.exists_eq
    have changed : Alike { p with control := p.control.yieldReaping.2 }
        { p with control := p.control.yieldReaping.2, workers, calls } :=
      ⟨rfl, h.workers, h.calls⟩
    exact ⟨rfl, changed.reportAll who _⟩
  | stopping | claiming | collecting =>
    obtain ⟨workers, calls, rfl⟩ := h.exists_eq
    exact ⟨rfl, rfl, h.workers, h.calls⟩
  | arriving | awaiting | rechecking =>
    obtain ⟨workers, calls, rfl⟩ := h.exists_eq
    exact ⟨rfl, h⟩
  | asleep | returned | broken => exact ⟨rfl, h⟩

omit h in
theorem unlessBroken {i : Nat} {next next' : Pool → Pool} {x y : Option Payload × Pool}
    (moved : y.1 = x.1 ∧ Alike x.2 y.2) (go : Alike x.2 y.2 → Alike (next x.2) (next' y.2)) :
    Alike (Pool.unlessBroken i next x) (Pool.unlessBroken i next' y) := by
  obtain ⟨place, p⟩ := x
  obtain ⟨place', q⟩ := y
  obtain ⟨rfl, moved⟩ := moved
  cases place' with
  | none => exact go moved
  | some payload => exact moved.setPhase i _

/-- A worker gets on with its job. -/
theorem work (i job : Nat) (entry : Entry) (phase : Worker.Phase) (jobsRun : Counter) :
    Alike
      { p with
        jobs := p.jobs.setIfInBounds job entry
        workers := p.workers.modify i fun w => { w with phase, slot.jobsRun := jobsRun } }
      { q with
        jobs := q.jobs.setIfInBounds job entry
        workers := q.workers.modify i fun w => { w with phase, slot.jobsRun := jobsRun } } := by
  have moved := h.updateWorker i (f := fun w => { w with phase, slot.jobsRun := jobsRun })
    fun w => .inl (by unfold Worker.notified; split <;> rfl)
  obtain ⟨workers, calls, rfl⟩ := h.exists_eq
  exact ⟨rfl, moved.workers, moved.calls⟩

/-- A worker's job goes the same way in alike pools. -/
theorem stepJob (i : Nat) (w : Worker) (job : Nat) (phase : Job.Phase) :
    Alike (p.stepJob i w job phase) (q.stepJob i w job phase) := by
  have jobs : q.jobs = p.jobs := by rw [h.rest]
  unfold Pool.stepJob
  rw [jobs]
  cases p.jobs[job]? with
  | none => exact h
  | some e =>
    dsimp only
    split
    · exact h
    · have worked := h.work i job
      rw [jobs] at worked
      exact (worked _ _ _).reportAll _ _

/-- A worker that was not notified behaves alike. -/
theorem stepWorker {i : Nat} (same : q.workers[i]? = p.workers[i]?) :
    Alike (p.stepWorker i) (q.stepWorker i) := by
  have stop : q.control = p.control := by rw [h.rest]
  unfold Pool.stepWorker
  rw [same]
  cases p.workers[i]? with
  | none => exact h
  | some w =>
    dsimp only
    cases w.phase with
    | unborn | waiting | ended => exact h
    | announcing => exact h.setPhase i _
    | running job phase =>
      cases phase with
      | broken => exact h
      | _ => exact h.stepJob i w job _
    | attaching =>
      refine unlessBroken (h.advance _ i _ _) fun moved => ?_
      generalize (p.advance _ i _ _).2 = p at moved ⊢
      generalize (q.advance _ i _ _).2 = q at moved ⊢
      have counted :
          Alike { p with live := p.live.increment } { q with live := q.live.increment } := by
        obtain ⟨workers, calls, rfl⟩ := moved.exists_eq
        exact ⟨rfl, moved.workers, moved.calls⟩
      exact ((counted.pushIdle _ i).notify i).setPhase i _
    | checking =>
      dsimp only
      cases w.slot.cell with
      | none =>
        dsimp only
        rw [stop]
        exact h.setPhase i _
      | some job =>
        exact unlessBroken ((h.setCell i none).advance _ i _ _) fun moved => moved.setPhase i _
    | beginning job =>
      exact unlessBroken (h.advance _ i _ _) fun moved => moved.setPhase i _
    | resting =>
      exact unlessBroken (h.advance _ i _ _) fun moved => (moved.pushIdle _ i).setPhase i _
    | detaching =>
      refine unlessBroken (h.advance _ i _ _) fun moved => ?_
      generalize (p.advance _ i _ _).2 = p at moved ⊢
      generalize (q.advance _ i _ _).2 = q at moved ⊢
      have counted :
          Alike { p with live := p.live.decrement } { q with live := q.live.decrement } := by
        obtain ⟨workers, calls, rfl⟩ := moved.exists_eq
        exact ⟨rfl, moved.workers, moved.calls⟩
      exact (counted.notify i).setPhase i _
    | reporting => exact (h.note _ _).setPhase i _

/-! ### Calls -/

/-- A call that does more than signal has its counterpart. -/
theorem getElem?_call (hc : q.calls[k]? = some c) (plain : c.activity.isWake = false) :
    p.calls[q.rank k]? = some c := by
  have found := getElem?_filter_rank (f := (·.activity.isWake)) (l := q.calls.toList) (k := k)
    (by simpa using hc) plain
  rw [← h.calls, Array.getElem?_toList] at found
  exact found

/-- A plain call that moves on moves on in both pools, under its own number in each. -/
theorem putCall {c' : Call} (hc : q.calls[k]? = some c) (plain : c.activity.isWake = false)
    (still : c'.activity.isWake = false) :
    Alike (p.putCall (q.rank k) c') (q.putCall k c') := by
  have set := set_filter_rank (f := (·.activity.isWake)) (l := q.calls.toList) (k := k)
    (by simpa using hc) plain still
  have calls : (p.calls.setIfInBounds (q.rank k) c').toList =
      (q.calls.setIfInBounds k c').toList.filter (!·.activity.isWake) := by
    rw [Array.toList_setIfInBounds, Array.toList_setIfInBounds, set, h.calls]
    rfl
  obtain ⟨workers, calls', rfl⟩ := h.exists_eq
  exact ⟨rfl, h.workers, calls⟩

/-- Changing a call that only signals makes no difference. -/
theorem putCall_wake {c' : Call} (hc : q.calls[k]? = some c) (wake : c.activity.isWake = true)
    (still : c'.activity.isWake = true) : Alike p (q.putCall k c') := by
  have set := set_filter_of_wake (f := (·.activity.isWake)) (l := q.calls.toList) (k := k)
    (by simpa using hc) wake still
  have calls :
      p.calls.toList = (q.calls.setIfInBounds k c').toList.filter (!·.activity.isWake) := by
    rw [Array.toList_setIfInBounds, set, h.calls]
  obtain ⟨workers, calls', rfl⟩ := h.exists_eq
  exact ⟨rfl, h.workers, calls⟩

/-- A call that does more than signal behaves alike. -/
theorem step_call (sound : q.Sound) (hc : q.calls[k]? = some c)
    (plain : c.activity.isWake = false) :
    Alike (p.step (.call (q.rank k))) (q.step (.call k)) := by
  have hp := h.getElem?_call hc plain
  cases hs : c.activity with
  | nudging n =>
    rw [hs] at plain
    cases plain
  | submitting job s =>
    obtain ⟨-, m⟩ := sound.move_submission c.thread (⟨c, hc, hs⟩ : q.Submits k job s)
    obtain ⟨place, moved⟩ := h.stepSubmission c.thread job s
    have same : (q.stepSubmission c.thread job s).2.wakes = q.wakes := by
      rw [wakes, m.calls_eq]
      rfl
    rw [step_submitting hp hs, step_submitting hc hs, place, ← rank_congr same]
    exact moved.putCall (by rwa [m.calls_eq]) plain rfl
  | reaping r =>
    obtain ⟨-, m⟩ := sound.move_reaping c.thread
      (List.mem_append_right _ (mem_callers.2 ⟨k, c, hc, hs⟩) : r ∈ q.reapers)
    obtain ⟨place, moved⟩ := h.stepReaping c.thread r
    have same : (q.stepReaping c.thread r).2.wakes = q.wakes := by
      refine List.ext_getElem? fun j => ?_
      rw [wakes_getElem?, wakes_getElem?]
      rcases m.calls j with same | roused
      · rw [same]
      · rw [roused, Option.map_map]
        exact congrArg (Option.map · _) (funext isWake_roused)
    rw [step_reaping hp hs, step_reaping hc hs, place, ← rank_congr same]
    exact moved.putCall (m.own_call hc hs) plain rfl

/-! ### Wake-ups -/

/-- Waking the worker of a slot makes no difference. -/
theorem notified (ready : q.creation = .ready) (i : Nat) : Alike p (q.notify i) := by
  have woken := Undisturbed.notify q i
  have awake : q.creation ≠ .asleep i := by simp [ready]
  have workers : Undisturbed p (q.notify i) := by
    intro j
    rcases woken j with same | woken
    · rw [same]
      exact h.workers j
    · right
      rw [woken]
      rcases h.workers j with same | before
      · rw [same]
      · rw [before, Option.map_map]
        refine congrArg (Option.map · _) (funext fun w => ?_)
        rcases phase_notified w.notified with ⟨waiting, -⟩ | ⟨-, same⟩
        · exact absurd waiting (notified_ne_waiting w)
        · exact same
  refine ⟨?_, workers, h.calls⟩
  obtain ⟨workers, calls, rfl⟩ := h.exists_eq
  rw [Pool.notify, if_neg awake]
  rfl

/-- The step of a call that only signals leaves a pool alike to what it was. -/
theorem step_wake (sound : q.Sound) (hc : q.calls[k]? = some c) (wake : c.activity.isWake = true) :
    Alike p (q.step (.call k)) := by
  cases hs : c.activity with
  | submitting | reaping =>
    rw [hs] at wake
    cases wake
  | nudging n =>
    have ready := sound.ready.called k c hc
    rw [step_nudging hc hs]
    cases n with
    | looking i =>
      have same : (q.stepNudge (.looking i)).2 = q := by
        simp only [Pool.stepNudge]
        split <;> rfl
      rw [same]
      exact h.putCall_wake hc wake rfl
    | notifying i => exact (h.notified ready i).putCall_wake hc wake rfl
    | done reached => exact h.putCall_wake hc wake rfl

/-- A worker that was notified in vain goes back to wait. -/
theorem step_notified {i : Nat} {w : Worker} (hw : p.workers[i]? = some w)
    (asleep : w.phase = .waiting) (woken : q.workers[i]? = some w.notified)
    (hcell : w.slot.cell = none) (hstop : q.control.isStopping = false) :
    Alike p (q.step (.worker i)) := by
  have checking : w.notified = { w with phase := .checking } := by
    rw [Worker.notified, asleep]
  have back : { w with phase := .waiting } = w := by rw [← asleep]
  rw [checking] at woken
  show Alike p (q.stepWorker i)
  rw [stepWorker_checking woken rfl hcell, hstop]
  obtain ⟨workers, calls, rfl⟩ := h.exists_eq
  refine ⟨rfl, fun j => ?_, h.calls⟩
  simp only [Bool.false_eq_true, if_false, back]
  by_cases own : i = j
  · subst own
    exact .inl ((workers_set_self woken rfl).trans hw.symm)
  · rw [workers_set_of_ne rfl own]
    exact h.workers j

/-! ### New calls -/

/-- A call that only signals can be left out of the other pool. -/
theorem begin_wake (thread : Thread) (i : Nat) : Alike p (q.step (.begin thread (.wake i))) := by
  have calls : p.calls.toList =
      (q.calls.push ⟨thread, .nudging (.looking i)⟩).toList.filter (!·.activity.isWake) := by
    simp [Activity.isWake, h.calls]
  rw [step]
  split
  · obtain ⟨workers, calls', rfl⟩ := h.exists_eq
    exact ⟨rfl, h.workers, calls⟩
  · exact h

/-- A plain call begins in both pools. -/
theorem begin_plain (ready : q.creation = .ready) (thread : Thread) {request : Request}
    (plain : request.isWake = false) :
    Alike (p.step (.begin thread request)) (q.step (.begin thread request)) := by
  have made : p.creation = .ready := by rwa [h.rest] at ready
  have push (activity : Activity) (plain : activity.isWake = false) :
      (p.calls.push ⟨thread, activity⟩).toList =
        (q.calls.push ⟨thread, activity⟩).toList.filter (!·.activity.isWake) := by
    simp [h.calls, plain]
  rw [step, step, if_pos made, if_pos ready]
  cases request with
  | wake i => cases plain
  | submit ending gated =>
    have pushed := push (.submitting q.jobs.size (.arriving false)) rfl
    obtain ⟨workers, calls, rfl⟩ := h.exists_eq
    exact ⟨rfl, h.workers, pushed⟩
  | reap =>
    have pushed := push (.reaping .arriving) rfl
    obtain ⟨workers, calls, rfl⟩ := h.exists_eq
    exact ⟨rfl, h.workers, pushed⟩

theorem release (job : Nat) : Alike (p.step (.release job)) (q.step (.release job)) := by
  obtain ⟨workers, calls, rfl⟩ := h.exists_eq
  exact ⟨rfl, h.workers, h.calls⟩

/-! ### Who can go on -/

theorem canStepWorker (w : Worker) : q.canStepWorker w = p.canStepWorker w := by
  rw [h.rest]
  rfl

/-- The same calls can take a step in alike pools. -/
theorem canStepCall (c : Call) : q.canStepCall c = p.canStepCall c := by
  have reaping (r : Reaping) : q.canStepReaping r = p.canStepReaping r := by
    cases r with
    | joining left joined =>
      cases left with
      | nil => rfl
      | cons i left => exact congrArg Option.isSome (h.ended?_eq i)
    | _ => rfl
  unfold Pool.canStepCall
  split
  · exact reaping _
  · rfl

/-- The same plain calls are worth a turn in alike pools. -/
theorem isUseful (plain : q.isPlain k = true) :
    Session.isUseful q k = Session.isUseful p (q.rank k) := by
  obtain ⟨c, hc, plain⟩ := isPlain_iff.1 plain
  have hp := h.getElem?_call hc plain
  have idle : q.idle = p.idle := by rw [h.rest]
  have stop : q.control = p.control := by rw [h.rest]
  unfold Session.isUseful
  rw [hc, hp]
  dsimp only
  rw [idle, stop, h.canStepCall c]

/-- There are as many calls that do more than signal. -/
theorem rank_size : q.rank q.calls.size = p.calls.size := by
  rw [← Array.length_toList, ← Array.length_toList, h.calls, rank, wakes,
    List.take_of_length_le (by simp), List.count_eq_countP, List.countP_map,
    List.countP_eq_length_filter]
  refine congrArg (fun f => (q.calls.toList.filter f).length) (funext fun c => ?_)
  cases h : c.activity.isWake <;> simp [h]

/-- With the same workers nothing but the calls that only signal makes a difference. -/
theorem quiet_eq (same : q.workers = p.workers) : q.quiet = p := by
  have calls : q.calls.filter (!·.activity.isWake) = p.calls := by
    rw [← Array.toList_inj, Array.toList_filter, h.calls]
  obtain ⟨workers, calls', rfl⟩ := h.exists_eq
  subst same
  rw [quiet, calls]

end Alike

end Interlock.Pool
