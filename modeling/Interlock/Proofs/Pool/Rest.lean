import Interlock.Proofs.Pool.Wakeup

/-!
# A pool at rest

A pool is at rest when no job is being handed in, and every worker sleeps or is inside a task.
Since no wake-up is lost, a pool at rest that does not stop has done all work, or is doing it: each
unfinished job is with its own worker, and the other workers are idle (`Conserved`).
-/

namespace Interlock

namespace Worker

/-- Whether a worker's thread is inside a task. -/
def isInside (w : Worker) : Bool :=
  match w.phase with
  | .running _ .inside => true
  | _ => false

/-- Whether a worker's thread is asleep at its slot, not notified. -/
def isAsleep (w : Worker) : Bool :=
  match w.phase with
  | .waiting => true
  | _ => false

theorem isInside_iff {w : Worker} : w.isInside = true ↔ ∃ job, w.phase = .running job .inside := by
  unfold isInside
  split
  · next job h => exact iff_of_true rfl ⟨job, h⟩
  · next h =>
    refine iff_of_false (by simp) ?_
    rintro ⟨job, e⟩
    exact h job e

theorem isAsleep_iff {w : Worker} : w.isAsleep = true ↔ w.phase = .waiting := by
  unfold isAsleep
  split
  · next h => exact iff_of_true rfl h
  · next h => exact iff_of_false (by simp) h

end Worker

namespace Pool

open scoped List

variable {config : Config} {spawner : Nat → Except StartFailure (Option Payload.Inert)} {p q : Pool}

/-- Nobody hands in a job, and every worker is asleep at its slot, not notified, or inside a
task. -/
structure AtRest (p : Pool) : Prop where
  submits : ∀ k job s, p.Submits k job s → (Activity.submitting job s).isOver = true
  workers : ∀ (i : Nat) (w : Worker), p.workers[i]? = some w →
    w.phase = .waiting ∨ ∃ job, w.phase = .running job .inside

/-- Rest can be seen by going through the calls and the workers. -/
theorem atRest_iff :
    p.AtRest ↔ (∀ c ∈ p.calls.toList, c.activity.job?.isSome = true → c.activity.isOver = true) ∧
      ∀ w ∈ p.workers, w.isAsleep = true ∨ w.isInside = true := by
  simp only [Worker.isAsleep_iff, Worker.isInside_iff]
  constructor
  · rintro ⟨submits, workers⟩
    refine ⟨fun c hc hjob => ?_, fun w hw => ?_⟩
    · obtain ⟨k, hk⟩ := Array.mem_iff_getElem?.1 (Array.mem_toList_iff.1 hc)
      cases hs : c.activity with
      | submitting job s => exact submits k job s ⟨c, hk, hs⟩
      | reaping | nudging =>
        rw [hs] at hjob
        cases hjob
    · obtain ⟨i, hi⟩ := List.mem_iff_getElem?.1 hw
      exact workers i w hi
  · rintro ⟨calls, workers⟩
    refine ⟨fun k job s ⟨c, hk, hs⟩ => ?_, fun i w hw => workers w (List.mem_of_getElem? hw)⟩
    have finished := calls c (Array.mem_toList_iff.2 (Array.mem_of_getElem? hk)) (by rw [hs]; rfl)
    rwa [hs] at finished

instance : Decidable p.AtRest := decidable_of_iff _ atRest_iff.symm

/-- Whether the worker of a slot is inside a task. -/
def isBusy (p : Pool) (i : Nat) : Bool := (p.workers[i]?).any (·.isInside)

/-- The slots whose workers are inside a task: one for each job that is executing. -/
def busy (p : Pool) : List Nat := (List.range p.size).filter p.isBusy

theorem mem_busy {i : Nat} :
    i ∈ p.busy ↔ ∃ w job, p.workers[i]? = some w ∧ w.phase = .running job .inside := by
  simp only [busy, isBusy, List.mem_filter, List.mem_range, Option.any_eq_true,
    Worker.isInside_iff]
  constructor
  · rintro ⟨-, w, hw, job, hphase⟩
    exact ⟨w, job, hw, hphase⟩
  · rintro ⟨w, job, hw, hphase⟩
    exact ⟨(List.getElem?_eq_some_iff.1 hw).1, w, hw, job, hphase⟩

section AtRest

variable (h : Reachable config spawner p) (rest : p.AtRest)

include rest

theorem AtRest.held_eq_nil : p.held = [] := by
  refine List.eq_nil_iff_forall_not_mem.2 fun i hi => ?_
  obtain ⟨k, job, hs⟩ := mem_held.1 hi
  cases rest.submits _ _ _ hs

include h

/-- A worker of a pool at rest sleeps with nothing in its cell, or is inside a task. -/
theorem AtRest.worker {i : Nat} {w : Worker} (hw : p.workers[i]? = some w) :
    (w.phase = .waiting ∧ w.slot.status = .sleeping ∧ w.carried? = none) ∨
      ∃ job, w.phase = .running job .inside ∧ w.slot.status = .runningJob ∧
        w.carried? = some job := by
  have allows := (h.sound.slots i w hw).allows
  rcases rest.workers i w hw with asleep | ⟨job, inside⟩
  · rw [asleep] at allows
    rcases allows with ⟨status, empty⟩ | ⟨-, full⟩
    · exact .inl ⟨asleep, status, by simp [Worker.carried?, empty, Worker.job?, asleep]⟩
    · obtain ⟨job, hcell⟩ := Option.isSome_iff_exists.1 full
      obtain ⟨k, n, hs, -⟩ := h.signalled i w job hw asleep hcell
      cases rest.submits _ _ _ hs
  · rw [inside] at allows
    exact .inr ⟨job, inside, allows.1, by simp [Worker.carried?, allows.2, Worker.job?, inside]⟩

theorem AtRest.idle_perm (hs : p.control.isStopping = false) :
    p.idle ~ (List.range p.size).filter fun i => !p.isBusy i := by
  have once : (p.idle ++ p.held).Nodup := h.sound.offers.nodup
  have sleeping := h.sound.mem_offered_iff hs
  simp only [rest.held_eq_nil, List.append_nil] at once sleeping
  refine (List.perm_ext_iff_of_nodup once (List.nodup_range.filter _)).2 fun i => ?_
  rw [sleeping, List.mem_filter, List.mem_range]
  cases hw : p.workers[i]? with
  | none =>
    have outside : ¬ i < p.size := Nat.not_lt.2 (List.getElem?_eq_none_iff.1 hw)
    simp [status?, hw, outside]
  | some w =>
    have inside : i < p.size := (List.getElem?_eq_some_iff.1 hw).1
    rcases rest.worker h hw with ⟨asleep, status, -⟩ | ⟨job, hphase, status, -⟩
    · simp [status?, isBusy, hw, status, inside, Worker.isInside, asleep]
    · simp [status?, isBusy, hw, status, Worker.isInside, hphase]

theorem AtRest.idle_length (hs : p.control.isStopping = false) :
    p.idle.length + p.busy.length = p.size := by
  have split := List.length_eq_length_filter_add (l := List.range p.size) p.isBusy
  rw [List.length_range] at split
  rw [(rest.idle_perm h hs).length_eq, busy]
  omega

theorem AtRest.executing {job i : Nat} (hi : (job, i) ∈ p.unfinished) :
    ∃ w, p.workers[i]? = some w ∧ w.phase = .running job .inside := by
  obtain ⟨w, hw, hjob⟩ := h.sound.ledger.carries_of_unfinished hi
  refine ⟨w, hw, ?_⟩
  rcases rest.worker h hw with ⟨-, -, none⟩ | ⟨job', inside, -, mine⟩
  · rw [none] at hjob
    cases hjob
  · obtain rfl : job' = job := Option.some.inj (mine.symm.trans hjob)
    exact inside

theorem AtRest.unfinished_perm : p.unfinished.map Prod.snd ~ p.busy := by
  have ledger := h.sound.ledger
  refine (List.perm_ext_iff_of_nodup ledger.unfinished_nodup
    (List.nodup_range.filter _)).2 fun i => ?_
  constructor
  · intro hi
    obtain ⟨⟨job, i⟩, hmem, rfl⟩ := List.mem_map.1 hi
    obtain ⟨w, hw, inside⟩ := rest.executing h hmem
    exact mem_busy.2 ⟨w, job, hw, inside⟩
  · intro hi
    obtain ⟨w, job, hw, inside⟩ := mem_busy.1 hi
    have hjob : w.carried? = some job := by
      rcases rest.worker h hw with ⟨asleep, -⟩ | ⟨job', inside', -, mine⟩
      · rw [inside] at asleep
        cases asleep
      · rw [inside] at inside'
        cases inside'
        exact mine
    obtain ⟨e, he, -, state⟩ := ledger.course i w job hw hjob
    have unfinished : p.isCompleted job = false := by
      simp [isCompleted, jobIs, he, state, Worker.course, inside, Job.Phase.state]
    exact List.mem_map.2 ⟨(job, i), List.mem_filter.2
      ⟨ledger.carries_installed ⟨w, hw, hjob⟩, by simp [unfinished]⟩, rfl⟩

theorem AtRest.live_eq : p.live.value.toNat = p.size := by
  rw [h.live_eq, liveSlots, List.countP_eq_length.2, List.length_map]
  · rfl
  · intro slot hslot
    obtain ⟨w, hmem, rfl⟩ := List.mem_map.1 hslot
    obtain ⟨i, hw⟩ := List.mem_iff_getElem?.1 hmem
    rcases rest.worker h hw with ⟨-, status, -⟩ | ⟨-, -, status, -⟩ <;>
      simp [Worker.Slot.isLive, status]

end AtRest

/-! ## The next submission -/

section Next

variable {k job : Nat}

/-- While the pool does not stop, a submission that arrives goes on to the idle queue. -/
theorem step_entering {waited : Bool} (hs : p.control.isStopping = false)
    (h : p.Submits k job (.arriving waited)) :
    (p.step (.call k)).Submits k job (.popping waited) ∧ (p.step (.call k)).idle = p.idle := by
  obtain ⟨c, hc, harrives⟩ := h
  rw [step_submitting hc harrives]
  simp only [stepSubmission, hs]
  exact ⟨⟨_, getElem?_putCall_self hc, rfl⟩, rfl⟩

/-- From there it takes the first idle worker, if there is one. -/
theorem step_popping (h : p.Submits k job (.popping false)) :
    (p.step (.call k)).Submits k job
      (match p.idle with
        | i :: _ => .holding i
        | [] => .counting) := by
  obtain ⟨c, hc, hpops⟩ := h
  rw [step_submitting hc hpops]
  cases hidle : p.idle <;> simp only [stepSubmission, hidle]
  · exact ⟨_, getElem?_putCall_self hc, rfl⟩
  · exact ⟨_, getElem?_putCall_self (by exact hc), rfl⟩

/-- A new submission takes the first idle worker with its second step, unless there is none. -/
theorem submits_next (hr : p.creation = .ready) (hs : p.control.isStopping = false)
    (thread : Thread) (ending : Ending Unit) (gated : Bool) :
    (((p.step (.begin thread (.submit ending gated))).step (.call p.calls.size)).step
        (.call p.calls.size)).Submits p.calls.size p.jobs.size
      (match p.idle with
        | i :: _ => .holding i
        | [] => .counting) := by
  have begun : p.step (.begin thread (.submit ending gated)) =
      p.beginCall thread (.submit ending gated) := if_pos hr
  have arrives : (p.step (.begin thread (.submit ending gated))).Submits p.calls.size
      p.jobs.size (.arriving false) := by
    rw [begun]
    exact submits_addCall.2 (.inl ⟨rfl, rfl⟩)
  have running : (p.step (.begin thread (.submit ending gated))).control.isStopping = false := by
    rw [begun]
    exact hs
  have same : (p.step (.begin thread (.submit ending gated))).idle = p.idle := by
    rw [begun]
    rfl
  obtain ⟨popping, idle⟩ := step_entering running arrives
  have found := step_popping popping
  rwa [idle, same] at found

end Next

/-! ## No wake-up is lost -/

/-- A pool at rest that does not stop has all its workers, and has left no work undone. -/
structure Conserved (p : Pool) : Prop where
  /-- An accepted job that is not finished is executing, -/
  executing : ∀ job i, (job, i) ∈ p.unfinished →
    ∃ w, p.workers[i]? = some w ∧ w.phase = .running job .inside
  /-- and each worker that is executing a job has one of its own. -/
  own : p.unfinished.map Prod.snd ~ p.busy
  live : p.live.value.toNat = p.size
  idle : p.idle.length + p.busy.length = p.size
  slots : ∀ (i : Nat) (w : Worker), p.workers[i]? = some w →
    w.slot.status = .sleeping ∨ w.slot.status = .runningJob
  /-- A new submission takes an idle worker at once, exactly when not all of them are busy. -/
  found : p.creation = .ready → ∀ thread ending gated,
    let q := ((p.step (.begin thread (.submit ending gated))).step (.call p.calls.size)).step
      (.call p.calls.size)
    ((∃ i ∈ p.idle, q.Submits p.calls.size p.jobs.size (.holding i)) ↔
        p.busy.length < p.size) ∧
      (q.Submits p.calls.size p.jobs.size .counting ↔ p.busy.length = p.size)

/-- Whoever sleeps while there is something to wake up for has the signal coming, so that nothing
is left undone by a pool at rest. -/
structure Wakeful (config : Config) (p : Pool) : Prop where
  size : p.creation = .ready → p.size = config.workers
  /-- The submission of a job has yet to signal the worker that sleeps with it. -/
  filled : ∀ (i : Nat) (w : Worker) (job : Nat), p.workers[i]? = some w → w.phase = .waiting →
    w.slot.cell = some job → ∃ k, p.Signals k job i ∧ ∀ m s, p.Submits m job s → m = k
  /-- When the pool stops, a reaper that can go on has yet to signal each worker that sleeps. -/
  stopping : ∀ (i : Nat) (w : Worker), p.workers[i]? = some w → w.phase = .waiting →
    p.control.isStopping = true →
      ∃ who r, p.standing who = some r ∧ r.Owes p.control i ∧ p.canStepReaping r = true
  rest : p.control.isStopping = false → p.AtRest → p.Conserved

theorem AtRest.conserved (h : Reachable config spawner p) (rest : p.AtRest)
    (hs : p.control.isStopping = false) : p.Conserved := by
  have idle := rest.idle_length h hs
  refine ⟨fun job i hi => rest.executing h hi, rest.unfinished_perm h, rest.live_eq h, idle, ?_, ?_⟩
  · intro i w hw
    rcases rest.worker h hw with ⟨-, status, -⟩ | ⟨-, -, status, -⟩
    · exact .inl status
    · exact .inr status
  · intro ready thread ending gated q
    have found : q.Submits p.calls.size p.jobs.size _ := submits_next ready hs thread ending gated
    have unique {s : Submission} (hs : q.Submits p.calls.size p.jobs.size s) := found.unique hs
    cases hidle : p.idle with
    | nil =>
      rw [hidle] at found idle unique
      have full : p.busy.length = p.size := by simpa using idle
      refine ⟨iff_of_false (by simp) (by omega), iff_of_true found full⟩
    | cons i rest =>
      rw [hidle] at found idle unique
      rw [List.length_cons] at idle
      refine ⟨iff_of_true ⟨i, List.mem_cons_self, found⟩ (by omega),
        iff_of_false (fun none => ?_) (by omega)⟩
      cases unique none

/-- A pool that was made was configured properly. -/
theorem Reachable.valid_of_ready (h : Reachable config spawner p) (hr : p.creation = .ready) :
    config.validate = .ok () := by
  have kept : config.validate = .ok () ∨ ∃ e, p.creation = .failed (.invalidConfig e) := by
    refine h.keep (motive := fun p => config.validate = .ok () ∨
      ∃ e, p.creation = .failed (.invalidConfig e)) ?_ ?_
    · rcases create_cases config spawner with ⟨e, made⟩ | ⟨valid, -⟩
      · exact .inr ⟨e, by rw [made]⟩
      · exact .inl valid
    · rintro p q log a - - m (valid | ⟨e, failed⟩)
      · exact .inl valid
      · refine .inr ⟨e, ?_⟩
        rcases m.creation_eq with made | same | ⟨i, same⟩
        · cases made with
          | prepare hcreation | spawn hcreation | refuse hcreation | store hcreation
          | undo hcreation | note hcreation | rollBack hcreation | drop hcreation
          | sleep hcreation | started hcreation | announce hcreation =>
            rw [failed] at hcreation
            cases hcreation
        · rw [same, failed]
        · rw [same, failed]
          rfl
  rcases kept with valid | ⟨e, failed⟩
  · exact valid
  · rw [failed] at hr
    cases hr

/-- A reaper that has yet to signal a slot does not wait for anybody. -/
theorem Reaping.Owes.canStep {control : Control} {i : Nat} {r : Reaping} (h : r.Owes control i) :
    p.canStepReaping r = true := by
  cases r with
  | claiming | rechecking | broadcasting | nudging => rfl
  | _ => exact h.elim

/-- In every state that a run reaches no wake-up has been lost. -/
theorem Reachable.wakeful (h : Reachable config spawner p) : Wakeful config p := by
  refine ⟨fun ready => h.size_eq (h.valid_of_ready ready), ?_, ?_,
    fun hs rest => rest.conserved h hs⟩
  · intro i w job hw asleep hcell
    obtain ⟨k, n, hs, pending⟩ := h.signalled i w job hw asleep hcell
    refine ⟨k, ⟨n, hs, pending⟩, fun m s hm => ?_⟩
    exact h.sound.ledger.single _ _ _ _ _ ⟨s, hm, rfl⟩ ⟨_, hs, rfl⟩
  · intro i w hw asleep hstop
    obtain ⟨who, r, hr, owes⟩ := h.owed hstop hw asleep
    exact ⟨who, r, hr, owes, owes.canStep⟩

/-- Both workers fall asleep; a job is installed with the first of them, and a reaper asks for a
stop, but neither has signalled anybody so far. -/
def drowsy : List Action :=
  making ++ [.worker 0, .worker 0, .worker 1, .worker 1] ++ submitting 0 3 ++ reaping 1 2

/-- Both workers fall asleep, and the first of them gets into the task of a job. -/
def calm : List Action :=
  making ++ [.worker 0, .worker 0, .worker 1, .worker 1] ++ submitting 0 5 ++
    List.replicate 4 (.worker 0)

/-- Before the signals, the sleepers are owed them; at rest, one worker is busy and one idle. -/
theorem wakeful_of_drowsy :
    (((create pair steady).run drowsy).workers.map (fun w => (w.isAsleep, w.slot.cell)) =
        [(true, some 0), (true, none)] ∧
      ((create pair steady).run drowsy).calls.map (·.activity) =
        #[.submitting 0 (.nudging 0 (.looking 0)), .reaping .claiming] ∧
      Wakeful pair ((create pair steady).run drowsy)) ∧
    ((create pair steady).run calm).busy = [0] ∧ ((create pair steady).run calm).idle = [1] ∧
      ((create pair steady).run calm).Conserved :=
  ⟨⟨by decide +kernel, by decide +kernel, Reachable.wakeful (Reachable.start.run drowsy)⟩,
    by decide +kernel, by decide +kernel,
    (Reachable.wakeful (Reachable.start.run calm)).rest (by decide +kernel) (by decide +kernel)⟩

end Pool

end Interlock
