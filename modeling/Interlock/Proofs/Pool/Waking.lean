import Interlock.Proofs.Pool.Early
import Interlock.Proofs.Pool.Teardown

/-!
# Wake-ups

A call that signals a slot answers whether a thread was attached when it looked (`woke?_run`), and
at most wakes the worker of the slot: nothing else of the pool changes (`step_wake`).  A worker that
resumes from its wait, for whatever reason, looks for a job and for a stop.  It goes back to wait
(`rouse_worker`), takes the job in its cell, or leaves (`leaves_run`).
-/

namespace Interlock

/-- The steps before its thread is over that remain to a worker that has no job and has been told to
stop. -/
def Worker.Phase.wayOut? : Worker.Phase → Option Nat
  | .checking => some 3
  | .detaching => some 2
  | .reporting => some 1
  | .ended _ => some 0
  | _ => none

namespace Pool

/-- Whether an action is a step of a worker. -/
def Action.isOf (i : Nat) : Action → Bool
  | .worker j => j == i
  | _ => false

variable {config : Config} {spawner : Nat → Except StartFailure (Option Payload.Inert)}
  {p q : Pool} {log : Array (Thread × Log.Line)} {a : Action} {k : Nat} {c : Call}

/-! ## Calls that wait for their turn -/

/-- A call stays where it is until its own next step, but for hearing that the workers have been
joined. -/
theorem Move.call_kept (m : Move p log a q) (other : a ≠ .call k) (hc : p.calls[k]? = some c) :
    q.calls[k]? = some c ∨ q.calls[k]? = some c.roused := by
  have elsewhere {m : Nat} {q : Pool} {x : Call} (others : Action.call m ≠ .call k)
      (hq : q.calls[k]? = some c ∨ q.calls[k]? = some c.roused) :
      (q.putCall m x).calls[k]? = some c ∨ (q.putCall m x).calls[k]? = some c.roused := by
    have ne : k ≠ m := by
      rintro rfl
      exact others rfl
    rwa [getElem?_putCall_of_ne ne]
  have reaping {r r' : Reaping} {q : Pool} (m : ReapingMove p log r r' q) :
      q.calls[k]? = some c ∨ q.calls[k]? = some c.roused := by
    rcases m.calls k with same | roused
    · exact .inl (same.trans hc)
    · exact .inr (by rw [roused, hc]; rfl)
  cases m with
  | stay | release | rouse => exact .inl hc
  | worker hw m => exact .inl (by rwa [m.calls_eq])
  | submission hc' hs m => exact elsewhere other (.inl (by rwa [m.calls_eq]))
  | reaping hc' hs m => exact elsewhere other (reaping m)
  | nudging hc' hs m => exact elsewhere other (.inl (by rwa [m.calls_eq]))
  | creation m =>
    cases m with
    | rollBack hcreation m | drop hcreation m => exact (reaping m :)
    | _ => exact .inl hc
  | @begin thread request ready =>
    have inside := (Array.getElem?_eq_some_iff.1 hc).1
    left
    cases request <;>
      simp only [beginCall, addCall, addJob, Array.getElem?_push, if_neg (Nat.ne_of_lt inside), hc]
  | rouseReapers => exact .inr (by rw [getElem?_notifyReaped, hc]; rfl)

/-! ## The answer of a signal -/

/-- The answer of a call that signals a slot, once it has returned. -/
def woke? (p : Pool) (k : Nat) : Option Bool :=
  (p.calls[k]?).bind fun c =>
    match c.activity with
    | .nudging (.done reached) => some reached
    | _ => none

theorem Sound.run (h : p.Sound) (actions : List Action) : (p.run actions).Sound := by
  induction actions generalizing p with
  | nil => exact h
  | cons a actions ih => exact ih (h.step a)

theorem isAttached_iff {i : Nat} :
    p.isAttached i = true ↔ i < p.size ∧ p.status? i ≠ some .notRunning := by
  unfold isAttached status? size
  cases hw : p.workers[i]? with
  | none => simpa using hw
  | some w =>
    have inside := (List.getElem?_eq_some_iff.1 hw).1
    simp [inside, Worker.Slot.isAttached, Worker.Status.isAttached]

section Signal

variable {n : Nudge} (hc : p.calls[k]? = some c)

include hc

theorem woke?_done {reached : Bool} (hs : c.activity = .nudging (.done reached)) :
    p.woke? k = some reached := by
  simp [woke?, hc, hs]

theorem woke?_notifying {i : Nat} (hs : c.activity = .nudging (.notifying i)) :
    p.woke? k = none := by
  simp [woke?, hc, hs]

variable (hs : c.activity = .nudging n)

include hs

theorem calls_step_own :
    (p.step (.call k)).calls[k]? = some { c with activity := .nudging (p.stepNudge n).1 } := by
  rw [step_nudging hc hs]
  exact getElem?_putCall_self (by rwa [(p.move_nudge n).2.calls_eq])

variable (h : p.Sound)

include h

theorem Sound.calls_step_other (other : a ≠ .call k) : (p.step a).calls[k]? = some c := by
  rcases (h.move_step a).2.call_kept other hc with same | roused
  · exact same
  · rwa [Call.roused, if_neg (by simp [hs])] at roused

theorem Sound.calls_run_other {actions : List Action} (unseen : .call k ∉ actions) :
    (p.run actions).calls[k]? = some c := by
  induction actions generalizing p with
  | nil => exact hc
  | cons a actions ih =>
    rw [List.mem_cons, not_or] at unseen
    exact ih (h.calls_step_other hc hs (Ne.symm unseen.1)) (h.step a) unseen.2

omit hs in
/-- A call that has returned its answer stays as it is. -/
theorem Sound.calls_run_done {reached : Bool} (ended : c.activity = .nudging (.done reached))
    (actions : List Action) : (p.run actions).calls[k]? = some c := by
  induction actions generalizing p with
  | nil => exact hc
  | cons a actions ih =>
    refine ih ?_ (h.step a)
    by_cases own : a = .call k
    · subst own
      rw [calls_step_own hc ended]
      show some { c with activity := .nudging (.done reached) } = some c
      rw [← ended]
    · exact h.calls_step_other hc ended own

/-- Once it has looked, a call that signals a slot answers whether a thread was attached; it does so
with its next step at the latest. -/
theorem Sound.woke?_run {i : Nat} (looks : n = .looking i) (after : List Action) :
    ((p.step (.call k)).run after).woke? k =
        some (decide (i < p.size ∧ p.status? i ≠ some .notRunning)) ∨
      ((p.step (.call k)).run after).woke? k = none ∧ .call k ∉ after := by
  subst looks
  have looked := calls_step_own hc hs
  have sound := h.step (.call k)
  have place := (p.move_nudge (.looking i)).2
  generalize (p.stepNudge (.looking i)).1 = n' at looked place
  generalize (p.stepNudge (.looking i)).2 = p' at place
  generalize p.step (.call k) = q at looked sound
  cases place with
  | miss out =>
    have none : ¬ (i < p.size ∧ p.status? i ≠ some .notRunning) := by
      rw [← isAttached_iff, out]
      exact Bool.false_ne_true
    left
    rw [woke?_done (sound.calls_run_done looked rfl after) rfl, decide_eq_false none]
  | look attached =>
    rw [decide_eq_true (isAttached_iff.1 attached)]
    by_cases seen : .call k ∈ after
    · obtain ⟨before, after, rfl, unseen⟩ := List.eq_append_cons_of_mem seen
      have kept := sound.calls_run_other looked rfl unseen
      have told := calls_step_own kept rfl
      have still := (sound.run before).step (.call k)
      left
      rw [run_append]
      exact woke?_done (still.calls_run_done told rfl after) rfl
    · exact .inr ⟨woke?_notifying (sound.calls_run_other looked rfl seen) rfl, seen⟩

end Signal

/-! ## What a signal changes -/

/-- A step of a call that signals a slot puts nothing but the call, and workers that wait, somewhere
else. -/
theorem Sound.step_wake (h : p.Sound) {n : Nudge} (hc : p.calls[k]? = some c)
    (hs : c.activity = .nudging n) :
    ∃ (n' : Nudge) (workers : List Worker),
      p.step (.call k) = { p.putCall k { c with activity := .nudging n' } with workers } ∧
        Undisturbed p (p.step (.call k)) := by
  have ready := h.ready.called k c hc
  have m := (p.move_nudge n).2
  rw [step_nudging hc hs]
  refine ⟨(p.stepNudge n).1, (p.stepNudge n).2.workers, ?_, m.undisturbed⟩
  generalize (p.stepNudge n).1 = n' at m ⊢
  generalize (p.stepNudge n).2 = q at m ⊢
  cases m with
  | @notify i =>
    have awake : p.creation ≠ .asleep i := by simp [ready]
    simp only [notify, putCall, if_neg awake]
    rfl
  | look | miss | stay => rfl

/-! ## Workers that resume -/

theorem putWorker_self {i : Nat} {w : Worker} (hw : p.workers[i]? = some w) :
    p.putWorker i w = p := by
  obtain ⟨inside, rfl⟩ := List.getElem?_eq_some_iff.1 hw
  rw [putWorker, List.set_getElem_self]

section Resume

variable {i : Nat} {w : Worker} (hw : p.workers[i]? = some w)

include hw

/-- A worker that is woken with an empty cell, while the pool does not stop, goes back to wait, and
all is as it was. -/
theorem Reachable.rouse_worker (h : Reachable config spawner p) (asleep : w.phase = .waiting)
    (hcell : w.slot.cell = none) (hstop : p.control.isStopping = false) :
    (p.step (.rouse i)).step (.worker i) = p := by
  have awake : p.creation ≠ .asleep i := by
    intro maker
    have uncalled := h.sound.uncalled (by simp [maker])
    have starting := (h.awaits uncalled).dormant i maker
    have allows := (h.sound.slots i w hw).allows
    rw [status?, hw, Option.map_some, Option.some_inj] at starting
    rw [asleep, starting] at allows
    simp [Worker.Phase.Allows] at allows
  have woken : p.notify i = p.putWorker i { w with phase := .checking } := by
    have change := updateWorker_eq hw Worker.notified
    rw [Worker.notified, asleep] at change
    rw [notify, if_neg awake, change]
    rfl
  have here : (p.putWorker i { w with phase := .checking }).workers[i]? =
      some { w with phase := .checking } := workers_set_self hw rfl
  show (p.notify i).stepWorker i = p
  rw [woken, stepWorker_checking here rfl hcell]
  have back : { w with phase := .waiting } = w := by rw [← asleep]
  simp only [putWorker, hstop, List.set_set, Bool.false_eq_true, if_false, back]
  exact putWorker_self hw

/-- A worker that resumes takes exactly the job in its cell, if there is one. -/
theorem Sound.take_job (h : p.Sound) (resumed : w.phase = .checking) {job : Nat}
    (hcell : w.slot.cell = some job) :
    ∃ log, p.step (.worker i) =
      { p.putWorker i
          { w with slot := { w.slot with status := .awake, cell := none }, phase := .beginning job }
        with log } := by
  have status := (fits_filled (h.slots i w hw)).1 (by rw [hcell]; rfl)
  exact ⟨_, stepWorker_taking hw resumed hcell status⟩

end Resume

/-! ### On the way out -/

section Leaving

variable {i n : Nat} {w : Worker}

theorem Undisturbed.kept (h : Undisturbed p q) (hw : p.workers[i]? = some w)
    (awake : w.phase ≠ .waiting) : q.workers[i]? = some w := by
  obtain ⟨x, hx, rfl | rfl⟩ := h.after hw
  · exact hx
  · rcases phase_notified w with ⟨waiting, -⟩ | ⟨-, same⟩
    · exact absurd waiting awake
    · rwa [same] at hx

/-- When the pool stops, nobody meddles with a worker that is on its way out. -/
theorem Sound.worker_kept (h : p.Sound) (m : Move p log a q) (other : a ≠ .worker i)
    (hw : p.workers[i]? = some w) (way : w.phase.wayOut? = some n)
    (hstop : p.control.isStopping = true) : q.workers[i]? = some w := by
  have awake : w.phase ≠ .waiting := by
    intro waiting
    simp [waiting, Worker.Phase.wayOut?] at way
  have born {j : Nat} {x : Worker} (hx : p.workers[j]? = some x) (unborn : x.phase = .unborn) :
      j ≠ i := by
    rintro rfl
    obtain rfl : x = w := Option.some.inj (hx.symm.trans hw)
    simp [unborn, Worker.Phase.wayOut?] at way
  cases m with
  | stay | release | rouseReapers => exact hw
  | @worker j x q hx m =>
    obtain ⟨y, hq, -⟩ := m.frame
    rwa [workers_set_of_ne hq fun same => other (by rw [same])]
  | submission hc hs m =>
    cases m with
    | install hx unstopped =>
      rw [hstop] at unstopped
      cases unstopped
    | nudge m => exact m.undisturbed.kept hw awake
    | refuse | enter | pop | full | count | retry | giveBack | stay => exact hw
  | reaping hc hs m => exact m.undisturbed.kept hw awake
  | nudging hc hs m => exact m.undisturbed.kept hw awake
  | creation m =>
    cases m with
    | @prepare j x hcreation hx =>
      have unborn := (h.making.unborn_of .notRunning hx (by simp [hcreation, Creation.unborn])).1
      exact (workers_set_of_ne rfl (born hx unborn)).trans hw
    | @spawn j x exit hcreation hx hs =>
      have unborn := (h.making.unborn_of .starting hx (by simp [hcreation, Creation.unborn])).1
      exact (workers_set_of_ne rfl (born hx unborn)).trans hw
    | @undo j x reason hcreation hx =>
      have unborn := (h.making.unborn_of .starting hx (by simp [hcreation, Creation.unborn])).1
      exact (workers_set_of_ne rfl (born hx unborn)).trans hw
    | rollBack hcreation m | drop hcreation m => exact m.undisturbed.kept hw awake
    | refuse | store | note | sleep | started | announce => exact hw
  | @begin thread request ready => cases request <;> exact hw
  | @rouse j => exact (Undisturbed.notify p j).kept hw awake

/-- A worker on its way out comes one step further by each step of its own. -/
theorem Sound.leaves_step (h : p.Sound) (hw : p.workers[i]? = some w)
    (way : w.phase.wayOut? = some n) (hcell : w.slot.cell = none)
    (hstop : p.control.isStopping = true) :
    ∃ x, (p.step (.worker i)).workers[i]? = some x ∧ x.phase.wayOut? = some (n - 1) ∧
      x.slot.cell = none ∧ x.exit = w.exit := by
  have allows := (h.slots i w hw).allows
  show ∃ x, (p.stepWorker i).workers[i]? = some x ∧ _
  cases hphase : w.phase with
  | checking =>
    rw [hphase] at way
    obtain rfl := Option.some.inj way
    rw [stepWorker_checking hw hphase hcell, hstop]
    exact ⟨_, workers_set_self hw rfl, rfl, hcell, rfl⟩
  | detaching =>
    rw [hphase] at way
    obtain rfl := Option.some.inj way
    rw [hphase] at allows
    rw [stepWorker_detaching hw hphase allows.1]
    exact ⟨_, workers_set_self hw rfl, rfl, hcell, rfl⟩
  | reporting =>
    rw [hphase] at way
    obtain rfl := Option.some.inj way
    rw [stepWorker_reporting hw hphase]
    exact ⟨_, workers_set_self hw rfl, rfl, hcell, rfl⟩
  | ended payload =>
    rw [hphase] at way
    obtain rfl := Option.some.inj way
    rw [stepWorker_stays hw (by simp [canStepWorker, hphase])]
    exact ⟨w, hw, by rw [hphase]; rfl, hcell, rfl⟩
  | _ => simp [hphase, Worker.Phase.wayOut?] at way

/-- A worker that has no job and has been told to stop leaves by its own steps, whatever happens
between them. -/
theorem Sound.leaves_run (h : p.Sound) (hw : p.workers[i]? = some w)
    (way : w.phase.wayOut? = some n) (hcell : w.slot.cell = none)
    (hstop : p.control.isStopping = true) {actions : List Action}
    (enough : n ≤ actions.countP (·.isOf i)) :
    ∃ x, (p.run actions).workers[i]? = some x ∧ x.phase = .ended (w.exit.map Subtype.val) ∧
      x.slot.status = .notRunning := by
  induction actions generalizing p w n with
  | nil =>
    obtain rfl : n = 0 := by simpa using enough
    have fits := h.slots i w hw
    cases hphase : w.phase with
    | ended payload =>
      have allows := fits.allows
      rw [hphase] at allows
      obtain rfl := fits.ends payload hphase
      exact ⟨w, hw, hphase, allows.1⟩
    | _ => simp [hphase, Worker.Phase.wayOut?] at way
  | cons a actions ih =>
    have sound := h.step a
    have stops := h.stops_step hstop a
    rw [List.countP_cons] at enough
    by_cases own : a = .worker i
    · subst own
      obtain ⟨x, hx, way, hcell, exit⟩ := h.leaves_step hw way hcell hstop
      rw [← exit]
      refine ih sound hx way hcell stops ?_
      rw [if_pos (show Action.isOf i (.worker i) = true from beq_self_eq_true i)] at enough
      omega
    · refine ih sound (h.worker_kept (h.move_step a).2 own hw way hstop) way hcell stops ?_
      have idle : a.isOf i = false := by
        cases a with
        | worker j => simpa [Action.isOf] using own
        | _ => rfl
      simpa [idle] using enough

end Leaving

/-! ## Wake-ups in any state -/

/-- What wake-ups do in a pool. -/
structure Inert (p : Pool) : Prop where
  /-- A call that signals a slot answers whether a thread is attached to it when it looks, whatever
  happens before and after that. -/
  answers : ∀ (thread : Thread) (i : Nat) (before after : List Action), p.creation = .ready →
    .call p.calls.size ∉ before →
      let q := (p.step (.begin thread (.wake i))).run before
      let r := (q.step (.call p.calls.size)).run after
      r.woke? p.calls.size = some (decide (i < q.size ∧ q.status? i ≠ some .notRunning)) ∨
        r.woke? p.calls.size = none ∧ .call p.calls.size ∉ after
  begins : ∀ (thread : Thread) (i : Nat),
    ∃ calls, p.step (.begin thread (.wake i)) = { p with calls }
  /-- Its steps change no slot; at most they wake a worker that waits. -/
  signals : ∀ (k : Nat) (c : Call) (n : Nudge), p.calls[k]? = some c → c.activity = .nudging n →
    ∃ (n' : Nudge) (workers : List Worker),
      p.step (.call k) = { p.putCall k { c with activity := .nudging n' } with workers } ∧
        workers.map (·.slot) = p.workers.map (·.slot) ∧ Undisturbed p (p.step (.call k))
  /-- A worker woken with an empty cell, while the pool does not stop, goes back to wait. -/
  waits : ∀ (i : Nat) (w : Worker), p.workers[i]? = some w → w.phase = .checking →
    w.slot.cell = none → p.control.isStopping = false →
      p.step (.worker i) = p.putWorker i { w with phase := .waiting }
  /-- All in all such a worker is woken in vain. -/
  resumes : ∀ (i : Nat) (w : Worker), p.workers[i]? = some w → w.phase = .waiting →
    w.slot.cell = none → p.control.isStopping = false →
      (p.step (.rouse i)).step (.worker i) = p
  takes : ∀ (i : Nat) (w : Worker) (job : Nat), p.workers[i]? = some w → w.phase = .checking →
    w.slot.cell = some job →
      ∃ log, p.step (.worker i) =
        { p.putWorker i
            { w with
              slot := { w.slot with status := .awake, cell := none }, phase := .beginning job } with
          log }
  /-- With an empty cell a worker leaves when the pool stops, whatever happens meanwhile. -/
  leaves : ∀ (i : Nat) (w : Worker) (actions : List Action), p.workers[i]? = some w →
    w.phase = .checking → w.slot.cell = none → p.control.isStopping = true →
      3 ≤ actions.countP (·.isOf i) →
        ∃ x, (p.run actions).workers[i]? = some x ∧ x.phase = .ended (w.exit.map Subtype.val) ∧
          x.slot.status = .notRunning

theorem Reachable.inert (h : Reachable config spawner p) : p.Inert where
  answers thread i before after ready unseen := by
    have begun : (p.step (.begin thread (.wake i))).calls[p.calls.size]? =
        some ⟨thread, .nudging (.looking i)⟩ := by
      simp [Pool.step, ready, beginCall, addCall]
    have sound := h.sound.step (.begin thread (.wake i))
    exact (sound.run before).woke?_run (i := i) (sound.calls_run_other begun rfl unseen) rfl rfl
      after
  begins thread i := by
    rw [Pool.step]
    split
    · exact ⟨_, rfl⟩
    · exact ⟨_, rfl⟩
  signals k c n hc hs := by
    obtain ⟨n', workers, stepped, undisturbed⟩ := h.sound.step_wake hc hs
    have slots := undisturbed.slots_eq
    rw [stepped] at slots
    exact ⟨n', workers, stepped, slots, undisturbed⟩
  waits i w hw resumed hcell hstop := by
    show p.stepWorker i = _
    rw [stepWorker_checking hw resumed hcell, hstop]
    rfl
  resumes i w hw asleep hcell hstop := h.rouse_worker hw asleep hcell hstop
  takes i w job hw resumed hcell := h.sound.take_job hw resumed hcell
  leaves i w actions hw resumed hcell hstop enough :=
    h.sound.leaves_run hw (by rw [resumed]; rfl) hcell hstop enough

end Pool

end Interlock
