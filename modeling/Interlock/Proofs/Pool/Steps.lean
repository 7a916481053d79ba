import Interlock.Proofs.Pool.Move

/-!
# The steps of a sound pool are moves

Each step is computed once, under the conditions that make its checks pass, and a sound pool meets
these conditions: `Sound.move_step`.  The same theorem tells that such a step logs nothing but
routine (`Quiet`): no refused move, no full queue, no flag found in the wrong state.
-/

namespace Interlock.Pool

/-! ## What is logged -/

/-- A line that a pool logs in the ordinary course of events: news about a worker's lifecycle, a
task or a thread that unwound, or a thread that was not started. -/
inductive Routine : Log.Line → Prop
  | debug (text : String) : Routine (.debug text)
  | unwound (text : String) : Routine (.error ("job panicked on worker " ++ text))
  | lost (text : String) : Routine (.error ("worker thread panicked: " ++ text))
  | unstarted (text : String) : Routine (.error ("spawning worker " ++ text))

/-- Nothing but routine was logged between two states. -/
def Quiet (p q : Pool) : Prop := ∀ entry ∈ q.log, entry ∈ p.log ∨ Routine entry.2

theorem Quiet.of_eq {p q : Pool} (h : q.log = p.log) : Quiet p q := by
  intro entry hentry
  rw [h] at hentry
  exact .inl hentry

/-- A routine line is quiet. -/
theorem Quiet.push {p q : Pool} {who : Thread} {line : Log.Line} (hline : Routine line)
    (h : q.log = p.log.push (who, line)) : Quiet p q := by
  intro entry hentry
  rw [h, Array.mem_push] at hentry
  rcases hentry with old | rfl
  · exact .inl old
  · exact .inr hline

/-- Routine lines are quiet. -/
theorem Quiet.append {p q : Pool} {who : Thread} {lines : List Log.Line}
    (hlines : ∀ line ∈ lines, Routine line)
    (h : q.log = p.log ++ (lines.map fun line => (who, line)).toArray) : Quiet p q := by
  intro entry hentry
  simp only [h, Array.mem_append, List.mem_toArray, List.mem_map] at hentry
  rcases hentry with old | ⟨line, hline, rfl⟩
  · exact .inl old
  · exact .inr (hlines line hline)

theorem reportAll_eq (who : Thread) (lines : List Log.Line) (p : Pool) :
    p.reportAll who lines =
      { p with log := p.log ++ (lines.map fun line => (who, line)).toArray } := by
  induction lines generalizing p with
  | nil => simp [reportAll]
  | cons line lines ih =>
    have step : p.reportAll who (line :: lines) = (p.report who line).reportAll who lines := rfl
    rw [step, ih]
    simp [report]

/-- The log after a note about a worker's lifecycle. -/
def noted (who : Thread) (text : String) (p : Pool) : Array (Thread × Log.Line) :=
  if p.config.debugLogging then p.log.push (who, .debug text) else p.log

theorem note_eq (who : Thread) (text : String) (p : Pool) :
    p.note who text = { p with log := p.noted who text } := by
  unfold note noted
  split <;> rfl

/-- Notes for debugging are quiet. -/
theorem Quiet.noted {p q : Pool} {who : Thread} {text : String}
    (h : q.log = p.noted who text) : Quiet p q := by
  unfold Pool.noted at h
  split at h
  · exact .push (.debug text) h
  · exact .of_eq h

/-! ## Small changes, computed

Each small change of which a step is made is one record update once its checks are known to pass. -/

private theorem modify_set {α : Type} (l : List α) (i : Nat) (a : α) (f : α → α) :
    (l.set i a).modify i f = l.set i (f a) := by
  rw [List.set_eq_modify, List.modify_modify_eq, List.set_eq_modify]
  rfl

/-- The log after a move of a worker's status. -/
def notedMove (who : Thread) (i : Nat) (source target : Worker.Status) (p : Pool) :
    Array (Thread × Log.Line) :=
  p.noted who ("worker " ++ toString i ++ ": " ++ source.name ++ " -> " ++ target.name)

section Changes

variable {p : Pool} {i : Nat} {w : Worker}

theorem updateWorker_eq (hw : p.workers[i]? = some w) (f : Worker → Worker) :
    p.updateWorker i f = p.putWorker i (f w) := by
  simp [updateWorker, putWorker, List.modify_eq_set_getElem?, hw]

/-- A change of status that is allowed succeeds. -/
theorem advance_eq (hw : p.workers[i]? = some w) (who : Thread) {source target : Worker.Status}
    (hs : w.slot.status = source) (h : source.allows target = true) :
    p.advance who i source target =
      (none, { p.putWorker i { w with slot.status := target } with
        log := p.notedMove who i source target }) := by
  have moved : w.slot.status.move source target = .ok target :=
    Worker.Status.move_eq_ok_iff.2 ⟨rfl, hs, h⟩
  unfold advance
  rw [hw]
  simp only [moved]
  rw [note_eq, setStatus, updateWorker_eq hw]
  rfl

theorem pushIdle_eq (who : Thread) (h : p.idle.length < p.size) :
    p.pushIdle who i = { p with idle := p.idle ++ [i] } :=
  if_pos h

end Changes

/-! ## Room in the idle queue -/

section Room

variable {p : Pool} {i : Nat} {w : Worker}

theorem Offers.lt {stopping : Bool} {workers : List Worker} {offered : List Nat}
    (h : Offers stopping workers offered) (hi : i ∈ offered) : i < workers.length := by
  obtain ⟨w, hw, -⟩ := h.sleeps i hi
  exact (List.getElem?_eq_some_iff.1 hw).1

/-- The idle queue has room for a worker that is not in it. -/
theorem Sound.idle_lt (h : p.Sound) (hw : p.workers[i]? = some w) (hi : i ∉ p.idle) :
    p.idle.length < p.size := by
  have nodup : (i :: p.idle).Nodup :=
    List.nodup_cons.2 ⟨hi, (List.nodup_append.1 h.offers.nodup).1⟩
  have inside : i :: p.idle ⊆ List.range p.size := by
    intro j hj
    rw [List.mem_range]
    rcases List.mem_cons.1 hj with rfl | hj
    · exact (List.getElem?_eq_some_iff.1 hw).1
    · exact h.offers.lt (List.mem_append_left _ hj)
  have fewer := (List.subperm_of_subset nodup inside).length_le
  rw [List.length_cons, List.length_range] at fewer
  exact fewer

/-- A worker is not offered while it is neither asleep nor out of its loop. -/
theorem Offers.not_mem {stopping : Bool} {workers : List Worker} {offered : List Nat}
    (h : Offers stopping workers offered) (hw : workers[i]? = some w)
    (hs : w.slot.status ≠ .sleeping) (hn : w.slot.status ≠ .notRunning) : i ∉ offered := by
  intro hi
  obtain ⟨w', hw', status⟩ := h.sleeps i hi
  obtain rfl : w = w' := Option.some.inj (hw.symm.trans hw')
  rcases status with status | ⟨-, status⟩
  · exact hs status
  · exact hn status

/-- There is room for a worker that is neither asleep nor gone. -/
theorem Sound.room (h : p.Sound) (hw : p.workers[i]? = some w) (hs : w.slot.status ≠ .sleeping)
    (hn : w.slot.status ≠ .notRunning) : p.idle.length < p.size :=
  h.idle_lt hw fun hi => h.offers.not_mem hw hs hn (List.mem_append_left _ hi)

end Room

/-! ## Steps of a worker -/

section WorkerSteps

variable {p : Pool} {i : Nat} {w : Worker} (hw : p.workers[i]? = some w)

include hw

/-- A worker that attaches is asleep then, and offered. -/
theorem stepWorker_attaching (h : w.phase = .attaching) (hs : w.slot.status = .starting)
    (hidle : p.idle.length < p.size) :
    p.stepWorker i =
      { p.putWorker i { w with slot.status := .sleeping, phase := .announcing } with
        live := p.live.increment
        idle := p.idle ++ [i]
        creation := p.creation.roused i
        log := p.notedMove (.worker i) i .starting .sleeping } := by
  unfold stepWorker
  rw [hw]
  simp only [h]
  rw [advance_eq hw _ hs rfl]
  simp only [unlessBroken]
  rw [pushIdle_eq _ (by simpa [size, putWorker] using hidle)]
  simp only [notify, setPhase, updateWorker, putWorker, modify_set, Worker.notified, h]
  rfl

theorem stepWorker_announcing (h : w.phase = .announcing) :
    p.stepWorker i = p.putWorker i { w with phase := .checking } := by
  unfold stepWorker
  rw [hw]
  simp only [h]
  exact updateWorker_eq hw _

/-- A worker that finds a job in its cell takes it out. -/
theorem stepWorker_taking {job : Nat} (h : w.phase = .checking) (hcell : w.slot.cell = some job)
    (hs : w.slot.status = .wakeRequested) :
    p.stepWorker i =
      { p.putWorker i
          { w with slot := { w.slot with status := .awake, cell := none }, phase := .beginning job }
        with log := p.notedMove (.worker i) i .wakeRequested .awake } := by
  unfold stepWorker
  rw [hw]
  simp only [h, hcell]
  have emptied : (p.setCell i none).workers[i]? = some { w with slot.cell := none } := by
    simp [setCell, updateWorker, hw]
  rw [advance_eq emptied _ hs rfl]
  simp only [unlessBroken]
  rw [setCell, updateWorker_eq hw]
  simp only [setPhase, updateWorker, putWorker, modify_set, List.set_set]
  rfl

theorem stepWorker_checking (h : w.phase = .checking) (hcell : w.slot.cell = none) :
    p.stepWorker i =
      p.putWorker i
        { w with phase := if p.control.isStopping then .detaching else .waiting } := by
  unfold stepWorker
  rw [hw]
  simp only [h, hcell]
  exact updateWorker_eq hw _

/-- A worker that begins a job says that it runs one. -/
theorem stepWorker_beginning {job : Nat} (h : w.phase = .beginning job)
    (hs : w.slot.status = .awake) :
    p.stepWorker i =
      { p.putWorker i
          { w with slot.status := .runningJob, phase := .running job .beginning } with
        log := p.notedMove (.worker i) i .awake .runningJob } := by
  unfold stepWorker
  rw [hw]
  simp only [h]
  rw [advance_eq hw _ hs rfl]
  simp only [unlessBroken, setPhase, updateWorker, putWorker, modify_set]

/-- A worker that is through with a job sleeps again and is offered. -/
theorem stepWorker_resting (h : w.phase = .resting) (hs : w.slot.status = .runningJob)
    (hidle : p.idle.length < p.size) :
    p.stepWorker i =
      { p.putWorker i { w with slot.status := .sleeping, phase := .announcing } with
        idle := p.idle ++ [i]
        log := p.notedMove (.worker i) i .runningJob .sleeping } := by
  unfold stepWorker
  rw [hw]
  simp only [h]
  rw [advance_eq hw _ hs rfl]
  simp only [unlessBroken]
  rw [pushIdle_eq _ (by simpa [size, putWorker] using hidle)]
  simp only [setPhase, updateWorker, putWorker, modify_set]

/-- A worker that detaches is not running any more. -/
theorem stepWorker_detaching (h : w.phase = .detaching) (hs : w.slot.status = .sleeping) :
    p.stepWorker i =
      { p.putWorker i { w with slot.status := .notRunning, phase := .reporting } with
        live := p.live.decrement
        creation := p.creation.roused i
        log := p.notedMove (.worker i) i .sleeping .notRunning } := by
  unfold stepWorker
  rw [hw]
  simp only [h]
  rw [advance_eq hw _ hs rfl]
  simp only [unlessBroken, notify, setPhase, updateWorker, putWorker, modify_set, Worker.notified,
    h]
  rfl

theorem stepWorker_reporting (h : w.phase = .reporting) :
    p.stepWorker i =
      { p.putWorker i { w with phase := .ended (w.exit.map Subtype.val) } with
        log := p.noted (.worker i) ("worker " ++ toString i ++ " exiting after "
          ++ toString w.slot.jobsRun.value ++ " jobs") } := by
  unfold stepWorker
  rw [hw]
  simp only [h]
  rw [note_eq]
  simp only [setPhase, updateWorker, putWorker, List.modify_eq_set_getElem?, hw]
  rfl

/-- A thread that unwound out of its job is over. -/
theorem stepWorker_broken {job : Nat} {payload : Payload}
    (h : w.phase = .running job (.broken payload)) : p.stepWorker i = p := by
  unfold stepWorker
  rw [hw]
  simp only [h]

/-- A worker in a job takes the job one step on. -/
theorem stepWorker_inJob {job : Nat} {phase : Job.Phase} (h : w.phase = .running job phase)
    (alive : ∀ payload, phase ≠ .broken payload) : p.stepWorker i = p.stepJob i w job phase := by
  unfold stepWorker
  rw [hw]
  cases phase with
  | broken payload => exact absurd rfl (alive payload)
  | _ => simp only [h]

/-- The step of a worker that is on the course of its job, unless it has to stay in a task that
may not end yet, or is over. -/
theorem stepWorker_running {job : Nat} {phase : Job.Phase} {e : Entry}
    (h : w.phase = .running job phase) (hjob : p.jobs[job]? = some e)
    (follows : phase.Follows e.ending) (hstate : e.state = phase.state e.ending) :
    p.stepWorker i =
      if p.canStepWorker w then
        { p.putWorker i
            { w with
              slot.jobsRun := phase.tally w.slot.jobsRun
              phase := phaseAfter job (phase.next e.ending) } with
          jobs := p.jobs.setIfInBounds job
            { e with state := (phase.next e.ending).state e.ending }
          log := p.log ++
            ((phase.lines i).map fun line => (Thread.worker i, line)).toArray }
      else p := by
  by_cases broken : ∃ payload, phase = .broken payload
  · obtain ⟨payload, rfl⟩ := broken
    have stuck : p.canStepWorker w = false := by simp [canStepWorker, h]
    rw [stuck, stepWorker_broken hw h]
    rfl
  have alive (payload : Payload) : phase ≠ .broken payload := fun e => broken ⟨payload, e⟩
  have can : p.canStepWorker w =
      !((Job.Run.mk phase e.state w.slot.jobsRun []).isInside && !e.released) := by
    unfold canStepWorker
    cases phase with
    | broken payload => exact absurd rfl (alive payload)
    | _ => simp [h, hjob, Job.Run.isInside]
  rw [stepWorker_inJob hw h alive]
  unfold stepJob
  rw [hjob, can]
  simp only
  split
  · next kept => rw [kept]; rfl
  · next goes =>
    rw [Bool.eq_false_iff.2 goes]
    have track : Job.Run.OnTrack e.ending
        { phase, state := e.state, jobsRun := w.slot.jobsRun } := ⟨follows, hstate⟩
    rw [track.step_eq i, reportAll_eq, List.append_nil, Job.Phase.reverse_lines]
    generalize phase.next e.ending = next
    cases next <;> simp [putWorker, phaseAfter, List.modify_eq_set_getElem?, hw]

end WorkerSteps

/-! ## Steps of a sound pool -/

variable {p : Pool}

/-- A worker that cannot go on stays. -/
theorem stepWorker_stays {i : Nat} {w : Worker} (hw : p.workers[i]? = some w)
    (stuck : p.canStepWorker w = false) : p.stepWorker i = p := by
  cases hphase : w.phase with
  | unborn | waiting | ended payload =>
    unfold stepWorker
    rw [hw]
    simp only [hphase]
  | running job phase =>
    cases phase with
    | broken payload => exact stepWorker_broken hw hphase
    | inside =>
      rw [stepWorker_inJob hw hphase (by simp)]
      have kept : ((p.jobs[job]?).map (·.released)).getD false = false := by
        simpa only [canStepWorker, hphase] using stuck
      unfold stepJob
      cases hjob : p.jobs[job]? with
      | none => rfl
      | some e =>
        rw [hjob, Option.map_some, Option.getD_some] at kept
        simp [Job.Run.isInside, kept]
    | _ => simp [canStepWorker, hphase] at stuck
  | _ => simp [canStepWorker, hphase] at stuck

/-- A worker that can go on does so. -/
theorem Sound.moves_worker (h : p.Sound) {i : Nat} {w : Worker} (hw : p.workers[i]? = some w)
    (can : p.canStepWorker w = true) :
    Quiet p (p.stepWorker i) ∧ WorkerMove p (p.stepWorker i).log i w (p.stepWorker i) := by
  have fits := (h.slots i w hw).allows
  cases hphase : w.phase with
  | unborn | waiting | ended payload =>
    simp only [canStepWorker, hphase] at can
    cases can
  | attaching =>
    rw [hphase] at fits
    obtain ⟨status, -⟩ := fits
    rw [stepWorker_attaching hw hphase status (h.room hw (by simp [status]) (by simp [status]))]
    exact ⟨.noted rfl, .attach hphase⟩
  | announcing =>
    rw [stepWorker_announcing hw hphase]
    exact ⟨.of_eq rfl, .announce hphase⟩
  | checking =>
    rw [hphase] at fits
    rcases fits with ⟨-, cell⟩ | ⟨status, cell⟩
    · rw [stepWorker_checking hw hphase cell]
      refine ⟨.of_eq rfl, ?_⟩
      cases hstop : p.control.isStopping
      · exact .wait hphase cell hstop
      · exact .leave hphase cell hstop
    · obtain ⟨job, cell⟩ := Option.isSome_iff_exists.1 cell
      rw [stepWorker_taking hw hphase cell status]
      exact ⟨.noted rfl, .take hphase cell⟩
  | beginning job =>
    rw [hphase] at fits
    rw [stepWorker_beginning hw hphase fits.1]
    exact ⟨.noted rfl, .start hphase⟩
  | running job phase =>
    rw [hphase] at fits
    have carried : w.carried? = some job := by
      simp [Worker.carried?, Worker.job?, hphase, fits.2]
    obtain ⟨e, hjob, follows, state⟩ := h.ledger.course i w job hw carried
    simp only [Worker.course, hphase] at follows state
    rw [stepWorker_running hw hphase hjob follows state, if_pos can]
    have goes : w.ended? = none := by
      cases phase with
      | broken payload => simp [canStepWorker, hphase] at can
      | _ => simp [Worker.ended?, hphase]
    refine ⟨.append ?_ rfl, .work hphase goes hjob⟩
    cases phase with
    | reporting payload =>
      intro line hline
      rw [List.mem_singleton.1 hline, String.append_assoc, String.append_assoc]
      exact .unwound _
    | _ => exact fun line hline => absurd hline (List.not_mem_nil)
  | resting =>
    rw [hphase] at fits
    obtain ⟨status, -⟩ := fits
    rw [stepWorker_resting hw hphase status (h.room hw (by simp [status]) (by simp [status]))]
    exact ⟨.noted rfl, .rest hphase⟩
  | detaching =>
    rw [hphase] at fits
    rw [stepWorker_detaching hw hphase fits.1]
    exact ⟨.noted rfl, .detach hphase⟩
  | reporting =>
    rw [stepWorker_reporting hw hphase]
    exact ⟨.noted rfl, .report hphase⟩

/-- The step of a worker is one of the moves, and logs nothing but routine. -/
theorem Sound.move_worker (h : p.Sound) (i : Nat) :
    Quiet p (p.stepWorker i) ∧ Move p (p.stepWorker i).log (.worker i) (p.stepWorker i) := by
  have stay (same : p.stepWorker i = p) :
      Quiet p (p.stepWorker i) ∧ Move p (p.stepWorker i).log (.worker i) (p.stepWorker i) := by
    rw [same]
    exact ⟨.of_eq rfl, .stay⟩
  cases hw : p.workers[i]? with
  | none => exact stay (by unfold stepWorker; rw [hw])
  | some w =>
    cases can : p.canStepWorker w with
    | false => exact stay (stepWorker_stays hw can)
    | true =>
      obtain ⟨quiet, m⟩ := h.moves_worker hw can
      exact ⟨quiet, .worker hw m⟩

/-- The step of a signal is one of the moves, and logs nothing. -/
theorem move_nudge (p : Pool) (n : Nudge) :
    (p.stepNudge n).2.log = p.log ∧ NudgeMove p n (p.stepNudge n).1 (p.stepNudge n).2 := by
  cases n with
  | looking i =>
    cases hw : p.workers[i]? with
    | none =>
      have e : p.stepNudge (.looking i) = (.done false, p) := by
        unfold stepNudge
        simp only [hw]
      rw [e]
      exact ⟨rfl, .miss (by simp [isAttached, hw])⟩
    | some w =>
      cases hattached : w.slot.isAttached with
      | false =>
        have e : p.stepNudge (.looking i) = (.done false, p) := by
          unfold stepNudge
          simp [hw, hattached]
        rw [e]
        exact ⟨rfl, .miss (by simp [isAttached, hw, hattached])⟩
      | true =>
        have e : p.stepNudge (.looking i) = (.notifying i, p) := by
          unfold stepNudge
          simp [hw, hattached]
        rw [e]
        exact ⟨rfl, .look (by simp [isAttached, hw, hattached])⟩
  | notifying i => exact ⟨rfl, .notify⟩
  | done reached => exact ⟨rfl, .stay⟩

/-- The step of a submission is one of the moves, and logs nothing but routine. -/
theorem Sound.move_submission (h : p.Sound) (who : Thread) {k job : Nat} {s : Submission}
    (hs : p.Submits k job s) :
    Quiet p (p.stepSubmission who job s).2 ∧
      SubmissionMove p (p.stepSubmission who job s).2.log job s (p.stepSubmission who job s).1
        (p.stepSubmission who job s).2 := by
  cases s with
  | arriving waited =>
    refine ⟨.of_eq rfl, ?_⟩
    simp only [stepSubmission]
    cases hstop : p.control.isStopping
    · exact .enter hstop
    · exact .refuse hstop
  | popping waited =>
    cases hidle : p.idle with
    | nil =>
      simp only [stepSubmission, hidle]
      exact ⟨.of_eq rfl, .full hidle⟩
    | cons i idle =>
      simp only [stepSubmission, hidle]
      exact ⟨.of_eq rfl, .pop hidle⟩
  | counting => exact ⟨.of_eq rfl, .count⟩
  | parking => exact ⟨.of_eq rfl, .retry⟩
  | holding i =>
    have hheld : i ∈ p.held := mem_held.2 ⟨k, job, hs⟩
    obtain ⟨w, hw, status⟩ := h.offers.sleeps i (List.mem_append_right _ hheld)
    cases hstop : p.control.isStopping
    · replace status : w.slot.status = .sleeping := by simpa [hstop] using status
      have e : p.stepSubmission who job (.holding i) =
          (.nudging i (.looking i),
            { p.putWorker i
                { w with slot := { w.slot with status := .wakeRequested, cell := some job } }
              with log := p.notedMove who i .sleeping .wakeRequested }) := by
        simp only [stepSubmission, hstop]
        rw [advance_eq hw who status rfl]
        simp only [setCell, updateWorker, putWorker, modify_set, Bool.false_eq_true, if_false]
      rw [e]
      exact ⟨.noted rfl, .install hw hstop status⟩
    · have out : i ∉ p.idle := fun hi =>
        (List.nodup_append.1 h.offers.nodup).2.2 i hi i hheld rfl
      have e : p.stepSubmission who job (.holding i) =
          (.refused, { p with idle := p.idle ++ [i] }) := by
        simp only [stepSubmission, hstop, if_true]
        rw [pushIdle_eq who (h.idle_lt hw out)]
      rw [e]
      exact ⟨.of_eq rfl, .giveBack hstop⟩
  | nudging i n =>
    obtain ⟨hlog, m⟩ := p.move_nudge n
    have e : p.stepSubmission who job (.nudging i n) =
        (.afterNudge i (p.stepNudge n).1, (p.stepNudge n).2) := by
      simp only [stepSubmission]
      rcases p.stepNudge n with ⟨n', q⟩
      cases n' <;> rfl
    rw [e]
    exact ⟨.of_eq hlog, .nudge m⟩
  | accepted i => exact ⟨.of_eq rfl, .stay rfl⟩
  | refused => exact ⟨.of_eq rfl, .stay rfl⟩
  | broken payload => exact ⟨.of_eq rfl, .stay rfl⟩

theorem NudgeMove.size_eq {n n' : Nudge} {q : Pool} (m : NudgeMove p n n' q) :
    q.size = p.size := by
  cases m with
  | notify => simp [size, Pool.notify, updateWorker]
  | look | miss | stay => rfl

/-- Whoever holds the role has set the flag. -/
theorem Roles.isReaping {rs : List Reaping} (h : p.Roles rs) {r : Reaping} (hr : r ∈ rs)
    (hrole : r.hasRole = true) : p.control.isReaping = true := by
  have positive : 0 < rs.countP (·.hasRole) := List.countP_pos_iff.2 ⟨r, hr, hrole⟩
  rw [h.role] at positive
  cases hflag : p.control.isReaping with
  | true => rfl
  | false =>
    rw [hflag] at positive
    exact absurd positive (by decide)

/-- The step of a teardown is one of the moves, and logs nothing but routine. -/
theorem Sound.move_reaping (h : p.Sound) (who : Thread) {r : Reaping} (hr : r ∈ p.reapers) :
    Quiet p (p.stepReaping who r).2 ∧
      ReapingMove p (p.stepReaping who r).2.log r (p.stepReaping who r).1
        (p.stepReaping who r).2 := by
  have hfits := h.roles.fits r hr
  cases r with
  | arriving =>
    refine ⟨.of_eq rfl, ?_⟩
    simp only [stepReaping]
    cases hreaped : p.control.isReaped
    · exact .go hreaped
    · exact .known hreaped
  | stopping => exact ⟨.of_eq rfl, .stop⟩
  | claiming =>
    refine ⟨.of_eq rfl, ?_⟩
    have e : p.stepReaping who .claiming =
        (if !p.control.isReaping then .rechecking else .awaiting,
          { p with control := p.control.beginReaping.2 }) := rfl
    rw [e]
    cases hreaping : p.control.isReaping
    · exact .win hreaping
    · exact .lose hreaping
  | awaiting =>
    refine ⟨.of_eq rfl, ?_⟩
    simp only [stepReaping]
    cases hdone : p.reaped
    · exact .sleep hdone
    · exact .told hdone
  | asleep => exact ⟨.of_eq rfl, .stay⟩
  | rechecking =>
    refine ⟨.of_eq rfl, ?_⟩
    simp only [stepReaping]
    cases hreaped : p.control.isReaped
    · exact .first hreaped
    · exact .late hreaped
  | cancelling =>
    have silent : p.control.cancelReaping.1 = [] :=
      Control.log_yieldReaping _ (h.roles.isReaping hr rfl)
    have e : p.stepReaping who .cancelling =
        (.returned, { p with control := p.control.cancelReaping.2 }) := by
      simp only [stepReaping, silent]
      rfl
    rw [e]
    exact ⟨.of_eq rfl, .cancel⟩
  | broadcasting => exact ⟨.of_eq rfl, .broadcast⟩
  | nudging i n =>
    obtain ⟨hlog, m⟩ := p.move_nudge n
    have same := m.size_eq
    have e : p.stepReaping who (.nudging i n) =
        (.afterNudge p.size i (p.stepNudge n).1, (p.stepNudge n).2) := by
      rw [← same]
      simp only [stepReaping]
      rcases p.stepNudge n with ⟨n', q⟩
      cases n' <;> rfl
    rw [e]
    exact ⟨.of_eq hlog, .nudge m⟩
  | collecting => exact ⟨.of_eq rfl, .collect⟩
  | joining left joined =>
    cases left with
    | nil => exact ⟨.of_eq rfl, .joined⟩
    | cons i left =>
      have wait (hended : (p.workers[i]?).bind (·.ended?) = none) :
          p.stepReaping who (.joining (i :: left) joined) = (.joining (i :: left) joined, p) := by
        simp only [stepReaping, hended]
      cases hw : p.workers[i]? with
      | none =>
        rw [wait (by simp [hw])]
        exact ⟨.of_eq rfl, .stay⟩
      | some w =>
        cases hended : w.ended? with
        | none =>
          rw [wait (by simp [hw, hended])]
          exact ⟨.of_eq rfl, .stay⟩
        | some payload =>
          have ended : (p.workers[i]?).bind (·.ended?) = some payload := by simp [hw, hended]
          cases payload with
          | none =>
            simp only [stepReaping, ended]
            exact ⟨.of_eq rfl, .join hw hended rfl⟩
          | some payload =>
            simp only [stepReaping, ended]
            refine ⟨.push (.lost _) rfl, ?_⟩
            cases payload with
            | bomb next => exact .fall hw hended
            | text _ | other => exact .join hw hended rfl
  | draining joined =>
    cases hidle : p.idle with
    | nil =>
      simp only [stepReaping, hidle]
      exact ⟨.of_eq rfl, .drained hidle⟩
    | cons i idle =>
      simp only [stepReaping, hidle]
      exact ⟨.of_eq rfl, .drain hidle⟩
  | marking joined =>
    have silent : p.control.markReaped.1 = [] := Control.log_markReaped _ hfits.1.2
    have e : p.stepReaping who (.marking joined) =
        (.yielding joined, { p with control := p.control.markReaped.2 }) := by
      simp only [stepReaping, silent]
      rfl
    rw [e]
    exact ⟨.of_eq rfl, .mark⟩
  | yielding joined =>
    have silent : p.control.yieldReaping.1 = [] :=
      Control.log_yieldReaping _ (h.roles.isReaping hr rfl)
    have e : p.stepReaping who (.yielding joined) =
        (.publishing joined, { p with control := p.control.yieldReaping.2 }) := by
      simp only [stepReaping, silent]
      rfl
    rw [e]
    exact ⟨.of_eq rfl, .yield⟩
  | publishing joined => exact ⟨.of_eq rfl, .publish⟩
  | reporting joined => exact ⟨.push (.debug _) rfl, .report⟩
  | returned | broken payload => exact ⟨.of_eq rfl, .stay⟩

/-- A worker of which the maker of the pool knows that it was not started. -/
theorem Making.unborn_of (h : p.Making) {i : Nat} {w : Worker} (status : Worker.Status)
    (hw : p.workers[i]? = some w) (hs : p.creation.unborn i = some status) :
    w.phase = .unborn ∧ w.slot.status = status := by
  have unborn : w.phase = .unborn := by
    by_contra born
    rw [h.born i w hw born] at hs
    cases hs
  have same := h.unborn i w hw unborn
  rw [hs] at same
  exact ⟨unborn, (Option.some.inj same).symm⟩

/-- The worker whose thread is about to be started. -/
theorem Making.current_worker (h : p.Making) {i : Nat} (status : Worker.Status)
    (hc : p.creation.current? = some i) (hs : p.creation.unborn i = some status) :
    ∃ w, p.workers[i]? = some w ∧ w.phase = .unborn ∧ w.slot.status = status := by
  have inside : i < p.workers.length := h.current i hc
  have hw : p.workers[i]? = some p.workers[i] := List.getElem?_eq_getElem inside
  exact ⟨_, hw, h.unborn_of status hw hs⟩

/-- The step of the creation is one of the moves, and logs nothing but routine. -/
theorem Sound.move_creation (h : p.Sound) :
    Quiet p p.stepCreation ∧ Move p p.stepCreation.log .creation p.stepCreation := by
  have stay (same : p.stepCreation = p) :
      Quiet p p.stepCreation ∧ Move p p.stepCreation.log .creation p.stepCreation := by
    rw [same]
    exact ⟨.of_eq rfl, .stay⟩
  cases hc : p.creation with
  | preparing i =>
    obtain ⟨w, hw, -, status⟩ := h.making.current_worker (i := i) .notRunning
      (by rw [hc]; rfl) (by rw [hc]; simp [Creation.unborn])
    have e : p.stepCreation =
        { p.putWorker i { w with slot.status := .starting } with
          creation := .spawning i
          log := p.notedMove .main i .notRunning .starting } := by
      unfold stepCreation
      simp only [hc]
      rw [advance_eq hw _ status rfl]
    rw [e]
    exact ⟨.noted rfl, .creation (.prepare hc hw)⟩
  | spawning i =>
    obtain ⟨w, hw, -, -⟩ := h.making.current_worker (i := i) .starting
      (by rw [hc]; rfl) (by rw [hc]; simp [Creation.unborn])
    cases hs : p.spawner i with
    | ok exit =>
      have e : p.stepCreation =
          { p.putWorker i { w with phase := .attaching, exit } with
            spawned := i :: p.spawned, creation := .storing i } := by
        unfold stepCreation
        simp only [hc, hs]
        simp only [updateWorker, putWorker, List.modify_eq_set_getElem?, hw]
        rfl
      rw [e]
      exact ⟨.of_eq rfl, .creation (.spawn hc hw hs)⟩
    | error reason =>
      have e : p.stepCreation =
          { p with spawned := i :: p.spawned, creation := .undoing i reason } := by
        unfold stepCreation
        simp only [hc, hs]
      rw [e]
      exact ⟨.of_eq rfl, .creation (.refuse hc hs)⟩
  | storing i =>
    have e : p.stepCreation =
        { p with handles := p.handles ++ [i], creation := .prepareFrom p.size (i + 1) } := by
      unfold stepCreation
      simp only [hc]
    rw [e]
    exact ⟨.of_eq rfl, .creation (.store hc)⟩
  | undoing i reason =>
    obtain ⟨w, hw, -, status⟩ := h.making.current_worker (i := i) .starting
      (by rw [hc]; rfl) (by rw [hc]; simp [Creation.unborn])
    have e : p.stepCreation =
        { p.putWorker i { w with slot.status := .notRunning } with
          creation := .noting i reason
          log := p.notedMove .main i .starting .notRunning } := by
      unfold stepCreation
      simp only [hc]
      rw [advance_eq hw _ status rfl]
    rw [e]
    exact ⟨.noted rfl, .creation (.undo hc hw)⟩
  | noting i reason =>
    unfold stepCreation
    simp only [hc]
    refine ⟨.push ?_ rfl, .creation (.note hc)⟩
    simp only [String.append_assoc]
    exact .unstarted _
  | rollingBack i reason r =>
    have hr : r ∈ p.reapers := by simp [reapers, hc, Creation.reaping?]
    obtain ⟨quiet, m⟩ := h.move_reaping .main hr
    have e : p.stepCreation =
        { (p.stepReaping .main r).2 with
          creation := .afterRollback i reason (p.stepReaping .main r).1 } := by
      unfold stepCreation
      simp only [hc]
      rcases p.stepReaping .main r with ⟨r', q⟩
      cases r' <;> rfl
    rw [e]
    exact ⟨quiet, .creation (.rollBack hc m)⟩
  | dropping i reason r =>
    have hr : r ∈ p.reapers := by simp [reapers, hc, Creation.reaping?]
    obtain ⟨quiet, m⟩ := h.move_reaping .main hr
    have e : p.stepCreation =
        { (p.stepReaping .main r).2 with
          creation := .afterDrop i reason (p.stepReaping .main r).1 } := by
      unfold stepCreation
      simp only [hc]
      rcases p.stepReaping .main r with ⟨r', q⟩
      cases r' <;> rfl
    rw [e]
    exact ⟨quiet, .creation (.drop hc m)⟩
  | awaiting i =>
    by_cases hs : p.status? i = some .starting
    · have e : p.stepCreation = { p with creation := .asleep i } := by
        unfold stepCreation
        simp only [hc, hs]
      rw [e]
      exact ⟨.of_eq rfl, .creation (.sleep hc hs)⟩
    · have e : p.stepCreation = { p with creation := .awaitFrom p.size (i + 1) } := by
        unfold stepCreation
        simp only [hc]
      rw [e]
      exact ⟨.of_eq rfl, .creation (.started hc hs)⟩
  | announcing =>
    unfold stepCreation
    simp only [hc]
    exact ⟨.push (.debug _) rfl, .creation (.announce hc)⟩
  | asleep _ | ready | failed _ | broken _ =>
    exact stay (by unfold stepCreation; simp only [hc])

section CallSteps

variable {p : Pool} {k : Nat} {c : Call} (hc : p.calls[k]? = some c)

include hc

theorem step_submitting {job : Nat} {s : Submission} (h : c.activity = .submitting job s) :
    p.step (.call k) = (p.stepSubmission c.thread job s).2.putCall k
      { c with activity := .submitting job (p.stepSubmission c.thread job s).1 } := by
  simp only [step, stepCall, hc, h]
  rfl

theorem step_reaping {r : Reaping} (h : c.activity = .reaping r) :
    p.step (.call k) = (p.stepReaping c.thread r).2.putCall k
      { c with activity := .reaping (p.stepReaping c.thread r).1 } := by
  simp only [step, stepCall, hc, h]
  rfl

theorem step_nudging {n : Nudge} (h : c.activity = .nudging n) :
    p.step (.call k) =
      (p.stepNudge n).2.putCall k { c with activity := .nudging (p.stepNudge n).1 } := by
  simp only [step, stepCall, hc, h]
  rfl

end CallSteps

/-- Every step of a sound pool is a move, and logs nothing but routine. -/
theorem Sound.move_step (h : p.Sound) (a : Action) :
    Quiet p (p.step a) ∧ Move p (p.step a).log a (p.step a) := by
  cases a with
  | worker i => exact h.move_worker i
  | call k =>
    cases hk : p.calls[k]? with
    | none =>
      have e : p.step (.call k) = p := by simp only [step, stepCall, hk]
      rw [e]
      exact ⟨.of_eq rfl, .stay⟩
    | some c =>
      cases hc : c.activity with
      | submitting job s =>
        obtain ⟨quiet, m⟩ := h.move_submission c.thread (⟨c, hk, hc⟩ : p.Submits k job s)
        rw [step_submitting hk hc]
        exact ⟨quiet, .submission hk hc m⟩
      | reaping r =>
        have hr : r ∈ p.reapers := List.mem_append_right _ (mem_callers.2 ⟨k, c, hk, hc⟩)
        obtain ⟨quiet, m⟩ := h.move_reaping c.thread hr
        rw [step_reaping hk hc]
        exact ⟨quiet, .reaping hk hc m⟩
      | nudging n =>
        obtain ⟨hlog, m⟩ := p.move_nudge n
        rw [step_nudging hk hc]
        exact ⟨.of_eq hlog, .nudging hk hc m⟩
  | creation => exact h.move_creation
  | begin thread request =>
    show Quiet p (if p.creation = .ready then p.beginCall thread request else p) ∧
      Move p (if p.creation = .ready then p.beginCall thread request else p).log
        (.begin thread request) (if p.creation = .ready then p.beginCall thread request else p)
    split
    · next ready =>
      refine ⟨.of_eq ?_, .begin ready⟩
      cases request <;> rfl
    · exact ⟨.of_eq rfl, .stay⟩
  | release job => exact ⟨.of_eq rfl, .release⟩
  | rouse i => exact ⟨.of_eq rfl, .rouse⟩
  | rouseReapers => exact ⟨.of_eq rfl, .rouseReapers⟩

end Interlock.Pool
