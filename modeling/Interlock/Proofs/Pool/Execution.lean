import Interlock.Proofs.Pool.Agreement
import Mathlib.Data.List.Nodup
import Mathlib.Data.UInt

/-!
# Every job is run once

A run shows which worker starts which job (`starting`).  The starts seen so far are those of the
installed jobs that have got into their task (`Started`), so that no job is started twice.  The
workers count their jobs before these are published as completed (`Counted`), so that the counts
add up to the installed jobs that have got past that point.  A job gets past it unless its task
leaves a payload behind that unwinds when it is dropped: such a job takes its worker down, and is
never counted and never completed (`exists_uncounted`).
-/

namespace Interlock

/-- Whether the task of a job was begun. -/
def Job.State.hasStarted (s : Job.State) : Bool :=
  match s.status with
  | .available => false
  | .executing => s.active != 0
  | .finishing => true
  | .completed => true

/-- On the course of a job the task begins with the second step. -/
theorem Job.Phase.hasStarted_next {task : Ending Unit} {phase : Job.Phase}
    (h : phase.Follows task) :
    ((phase.next task).state task).hasStarted = true ↔
      phase = .entering ∨ (phase.state task).hasStarted = true := by
  cases phase with
  | leaving ending =>
    cases h
    cases task <;> simp [next, state, State.hasStarted]
  | discarding payload => cases payload <;> simp [next, state, State.hasStarted]
  | _ => simp [next, state, State.hasStarted]

/-- Whether the worker counts its job with the step that is due here. -/
def Job.Phase.isCounting : Job.Phase → Bool
  | .counting => true
  | _ => false

/-- Whether a job on this place of its course has been counted by its worker. -/
def Job.Phase.isCounted : Job.Phase → Bool
  | .completing => true
  | .done => true
  | _ => false

/-- Whether a worker has counted its job and has only to publish it as completed. -/
def Worker.isCompleting (w : Worker) (job : Nat) : Bool :=
  w.carried? == some job && w.course matches .completing

/-- Whether a worker is on its way out, or gone. -/
def Worker.isLeaving (w : Worker) : Bool :=
  match w.phase with
  | .detaching => true
  | .reporting => true
  | .ended _ => true
  | .running _ (.broken _) => true
  | _ => false

/-- Whether a worker has no thread: it ended, or was never started. -/
def Worker.isOut (w : Worker) : Bool :=
  match w.phase with
  | .unborn => true
  | .ended _ => true
  | .running _ (.broken _) => true
  | _ => false

theorem Worker.isOut_iff {w : Worker} :
    w.isOut = true ↔ w.phase = .unborn ∨ ∃ payload, w.ended? = some payload := by
  unfold isOut ended?
  split <;> simp_all

/-- The job out of which a worker's thread unwound. -/
def Worker.fallen? (w : Worker) : Option Nat :=
  match w.phase with
  | .running job (.broken _) => some job
  | _ => none

/-- A worker on its way out has nothing in its cell. -/
theorem Worker.Fits.cell_of_leaving {stopping : Bool} {w : Worker} (h : w.Fits stopping)
    (leaving : w.isLeaving = true) : w.slot.cell = none := by
  have allows := h.allows
  cases hphase : w.phase with
  | detaching | reporting | ended | running =>
    rw [hphase] at allows
    exact allows.2
  | _ => simp [isLeaving, hphase] at leaving

/-- A worker that is out has no job but the one out of which it unwound. -/
theorem Worker.Fits.of_isOut {stopping : Bool} {w : Worker} (h : w.Fits stopping)
    (out : w.isOut = true) : w.slot.cell = none ∧ w.carried? = w.fallen? := by
  have allows := h.allows
  cases hphase : w.phase with
  | running job phase =>
    rw [hphase] at allows
    cases phase with
    | broken payload => exact ⟨allows.2, by simp [carried?, fallen?, allows.2, job?, hphase]⟩
    | _ => simp [isOut, hphase] at out
  | unborn | ended =>
    rw [hphase] at allows
    exact ⟨allows.2, by simp [carried?, fallen?, allows.2, job?, hphase]⟩
  | _ => simp [isOut, hphase] at out

namespace Pool

variable {config : Config} {spawner : Nat → Except StartFailure (Option Payload.Inert)}
  {p q : Pool} {log : Array (Thread × Log.Line)}

/-! ## Installed jobs -/

/-- The job that a call has installed, and the slot. -/
def Activity.installed? : Activity → Option (Nat × Nat)
  | .submitting job s => s.slot?.map (job, ·)
  | _ => none

/-- The jobs that were installed, each with its slot.  This is how a pool accepts a job. -/
def installed (p : Pool) : List (Nat × Nat) := p.calls.toList.filterMap (·.activity.installed?)

/-- A job is installed at a worker exactly if a submission has lodged it there. -/
theorem mem_installed {job i : Nat} :
    (job, i) ∈ p.installed ↔ ∃ k, p.Lodged k job (some i) := by
  simp only [installed, List.mem_filterMap, Array.mem_toList_iff, Array.mem_iff_getElem?, Lodged,
    Submits]
  constructor
  · rintro ⟨⟨thread, activity⟩, ⟨k, hk⟩, hi⟩
    cases activity with
    | submitting job' s =>
      obtain ⟨slot, hslot, e⟩ := Option.map_eq_some_iff.1 hi
      cases e
      exact ⟨k, s, ⟨_, hk, rfl⟩, hslot⟩
    | reaping _ | nudging _ => cases hi
  · rintro ⟨k, s, ⟨c, hk, hc⟩, hslot⟩
    exact ⟨c, ⟨k, hk⟩, by simp [hc, Activity.installed?, hslot]⟩

/-- No job is installed twice. -/
theorem Ledger.installed_nodup (h : p.Ledger) : (p.installed.map Prod.fst).Nodup := by
  rw [List.Nodup, List.pairwise_map, installed, List.pairwise_filterMap,
    List.pairwise_iff_getElem]
  intro k m hk hm before b hb b' hb' same
  have lodged {n : Nat} (hn : n < p.calls.toList.length) {c : Nat × Nat}
      (hc : (p.calls.toList[n]).activity.installed? = some c) :
      p.Lodged n c.1 (some c.2) := by
    cases hactivity : (p.calls.toList[n]).activity with
    | submitting job s =>
      rw [hactivity] at hc
      obtain ⟨slot, hslot, rfl⟩ := Option.map_eq_some_iff.1 hc
      refine ⟨s, ⟨p.calls.toList[n], ?_, hactivity⟩, hslot⟩
      rw [← Array.getElem?_toList, List.getElem?_eq_getElem hn]
    | reaping _ | nudging _ =>
      rw [hactivity] at hc
      cases hc
  have first := lodged hk hb
  have second := lodged hm hb'
  rw [same] at first
  have twice := h.single _ _ _ _ _ first second
  omega

/-- Whether the state of a job is like this. -/
def jobIs (p : Pool) (like : Job.State → Bool) (job : Nat) : Bool :=
  (p.jobs[job]?).any fun e => like e.state

/-- Whether a job is completed. -/
def isCompleted (p : Pool) (job : Nat) : Bool := p.jobIs (·.status == .completed) job

theorem isCompleted_iff {job : Nat} :
    p.isCompleted job = true ↔ ∃ e, p.jobs[job]? = some e ∧ e.state.status = .completed := by
  simp [isCompleted, jobIs, Option.any_eq_true]

/-- The installed jobs that are not completed. -/
def unfinished (p : Pool) : List (Nat × Nat) :=
  p.installed.filter fun (job, _) => !p.isCompleted job

/-- A job that is installed but not completed is carried by its worker. -/
theorem Ledger.carries_of_unfinished (h : p.Ledger) {job i : Nat} (hi : (job, i) ∈ p.unfinished) :
    p.Carries i job := by
  simp only [unfinished, List.mem_filter, Bool.not_eq_true', Bool.eq_false_iff] at hi
  obtain ⟨k, hk⟩ := mem_installed.1 hi.1
  rcases h.placed k job i hk with held | done
  · exact held
  · exact absurd (isCompleted_iff.2 done) hi.2

/-- A worker has at most one job that is not completed. -/
theorem Ledger.unfinished_nodup (h : p.Ledger) : (p.unfinished.map Prod.snd).Nodup := by
  have jobs : p.unfinished.Nodup := (List.Nodup.of_map _ h.installed_nodup).filter _
  refine List.Nodup.map_on ?_ jobs
  rintro ⟨job, i⟩ hi ⟨job', j⟩ hj same
  obtain rfl : i = j := same
  obtain ⟨w, hw, hjob⟩ := h.carries_of_unfinished hi
  obtain ⟨w', hw', hjob'⟩ := h.carries_of_unfinished hj
  obtain rfl : w = w' := Option.some.inj (hw.symm.trans hw')
  rw [Option.some.inj (hjob.symm.trans hjob')]

/-- There are no more jobs under way than workers. -/
theorem Ledger.unfinished_length_le (h : p.Ledger) : p.unfinished.length ≤ p.size := by
  have inside : p.unfinished.map Prod.snd ⊆ List.range p.size := by
    intro i hi
    obtain ⟨⟨job, j⟩, hmem, rfl⟩ := List.mem_map.1 hi
    obtain ⟨w, hw, -⟩ := h.carries_of_unfinished hmem
    exact List.mem_range.2 (List.getElem?_eq_some_iff.1 hw).1
  have fewer := (List.subperm_of_subset h.unfinished_nodup inside).length_le
  rwa [List.length_map, List.length_range] at fewer

/-! ## The starts of a run -/

/-- Where a worker's thread stands. -/
def phase? (p : Pool) (i : Nat) : Option Worker.Phase := (p.workers[i]?).map (·.phase)

/-- The job that a worker's step starts: its thread gets from outside into the task. -/
def starting (p : Pool) (a : Action) (q : Pool) : List (Nat × Nat) :=
  match a with
  | .worker i =>
    match p.phase? i, q.phase? i with
    | some (.running job .entering), some (.running _ .inside) => [(i, job)]
    | _, _ => []
  | _ => []

/-- A move that brings no worker into a task starts nothing. -/
theorem starting_eq_nil {a : Action}
    (h : ∀ (i : Nat) (w x : Worker) (job job' : Nat), a = .worker i → p.workers[i]? = some w →
      q.workers[i]? = some x → w.phase = .running job .entering → x.phase ≠ .running job' .inside) :
    starting p a q = [] := by
  unfold starting
  split
  · next i =>
    split
    · next job job' before after =>
      obtain ⟨w, hw, hphase⟩ := Option.map_eq_some_iff.1 before
      obtain ⟨x, hx, hphase'⟩ := Option.map_eq_some_iff.1 after
      exact absurd hphase' (h i w x job _ rfl hw hx hphase)
    · rfl
  · rfl

/-- The starts seen so far are those of the installed jobs whose task was begun. -/
structure Started (p : Pool) (starts : List (Nat × Nat)) : Prop where
  once : (starts.map Prod.snd).Nodup
  mem_iff : ∀ i job, (i, job) ∈ starts ↔
    (job, i) ∈ p.installed ∧ p.jobIs (·.hasStarted) job = true

/-! ## What the moves do to the jobs' states -/

section States

variable {like : Job.State → Bool} {job : Nat}

/-- A move that touches no job changes nothing that is said of one. -/
theorem Untouched.jobIs_eq (h : Untouched p q) : q.jobIs like job = p.jobIs like job := by
  unfold jobIs
  cases hp : p.jobs[job]? with
  | some e =>
    obtain ⟨e', he', same, -⟩ := h.jobs job e hp
    simp [he', same]
  | none =>
    rw [Array.getElem?_eq_none_iff, ← h.size, ← Array.getElem?_eq_none_iff] at hp
    rw [hp]

theorem jobIs_push {e : Entry} (hjobs : q.jobs = p.jobs.push e) (h : job < p.jobs.size) :
    q.jobIs like job = p.jobIs like job := by
  rw [jobIs, hjobs, Array.getElem?_push, if_neg (by omega)]
  rfl

theorem jobIs_congr (hjobs : q.jobs = p.jobs) : q.jobIs like job = p.jobIs like job := by
  rw [jobIs, hjobs]
  rfl

variable {job' : Nat} {e e' : Entry} (he : p.jobs[job]? = some e)
  (hjobs : q.jobs = p.jobs.setIfInBounds job e')

include he hjobs

theorem jobIs_set_self : q.jobIs like job = like e'.state := by
  rw [jobIs, jobs_set_self he hjobs]
  rfl

omit he in
theorem jobIs_set_of_ne (h : job' ≠ job) : q.jobIs like job' = p.jobIs like job' := by
  rw [jobIs, jobs_set_of_ne hjobs h]
  rfl

end States

theorem Ledger.jobIs_of_lodged (h : p.Ledger) {k job : Nat} (hl : p.Lodged k job none)
    (like : Job.State → Bool) : p.jobIs like job = like {} := by
  obtain ⟨⟨e, he, state⟩, -⟩ := h.fresh k job hl
  simp [jobIs, he, state]

/-- A job that its submission still holds is installed nowhere. -/
theorem Ledger.not_installed (h : p.Ledger) {k job : Nat} (hl : p.Lodged k job none) (i : Nat) :
    (job, i) ∉ p.installed := by
  intro hi
  obtain ⟨m, hm⟩ := mem_installed.1 hi
  obtain rfl := h.single _ _ _ _ _ hl hm
  cases (hl.unique hm).2

/-- A job is installed at one worker only. -/
theorem Ledger.installed_unique (h : p.Ledger) {job i j : Nat} (hi : (job, i) ∈ p.installed)
    (hj : (job, j) ∈ p.installed) : i = j := by
  obtain ⟨k, hk⟩ := mem_installed.1 hi
  obtain ⟨m, hm⟩ := mem_installed.1 hj
  obtain rfl := h.single _ _ _ _ _ hk hm
  exact Option.some.inj (hk.unique hm).2

theorem Ledger.installed_lt (h : p.Ledger) {job i : Nat} (hi : (job, i) ∈ p.installed) :
    job < p.jobs.size := by
  obtain ⟨k, hk⟩ := mem_installed.1 hi
  exact h.known _ _ _ hk

theorem Ledger.carries_installed (h : p.Ledger) {job i : Nat} (hi : p.Carries i job) :
    (job, i) ∈ p.installed :=
  mem_installed.2 (h.carried i job hi)

theorem installed_congr (lodged : ∀ k job slot?, q.Lodged k job slot? ↔ p.Lodged k job slot?)
    {job i : Nat} : (job, i) ∈ q.installed ↔ (job, i) ∈ p.installed := by
  simp only [mem_installed, lodged]

/-- A submission that begins installs nothing. -/
theorem installed_begin
    (lodged : ∀ k job slot?, q.Lodged k job slot? ↔
      k = p.calls.size ∧ job = p.jobs.size ∧ slot? = none ∨ p.Lodged k job slot?)
    {job i : Nat} : (job, i) ∈ q.installed ↔ (job, i) ∈ p.installed := by
  simp [mem_installed, lodged]

/-- A submission that lodges its job adds that job to the installed ones. -/
theorem installed_install {k job i : Nat} (before : p.Lodged k job none)
    (lodged : ∀ m job' slot?, q.Lodged m job' slot? ↔
      m = k ∧ job' = job ∧ slot? = some i ∨ m ≠ k ∧ p.Lodged m job' slot?)
    {job' j : Nat} : (job', j) ∈ q.installed ↔ job' = job ∧ j = i ∨ (job', j) ∈ p.installed := by
  simp only [mem_installed, lodged]
  constructor
  · rintro ⟨m, ⟨-, rfl, e⟩ | ⟨-, old⟩⟩
    · exact .inl ⟨rfl, Option.some.inj e⟩
    · exact .inr ⟨m, old⟩
  · rintro (⟨rfl, rfl⟩ | ⟨m, old⟩)
    · exact ⟨k, .inl ⟨rfl, rfl, rfl⟩⟩
    · refine ⟨m, .inr ⟨?_, old⟩⟩
      rintro rfl
      cases (before.unique old).2

/-- A move that begins no task leaves the starts alone. -/
theorem Started.same {starts : List (Nat × Nat)} (h : Started p starts) {a : Action}
    (none : starting p a q = [])
    (same : ∀ i job, (job, i) ∈ q.installed ∧ q.jobIs (·.hasStarted) job = true ↔
      (job, i) ∈ p.installed ∧ p.jobIs (·.hasStarted) job = true) :
    Started q (starts ++ starting p a q) := by
  rw [none, List.append_nil]
  exact ⟨h.once, fun i job => by rw [h.mem_iff, same]⟩

/-- A task that is begun was not begun before. -/
theorem Started.start {starts : List (Nat × Nat)} (h : Started p starts) (hl : p.Ledger)
    {job i : Nat} (mine : (job, i) ∈ p.installed) (before : p.jobIs (·.hasStarted) job = false)
    (after : q.jobIs (·.hasStarted) job = true)
    (elsewhere : ∀ job', job' ≠ job → q.jobIs (·.hasStarted) job' = p.jobIs (·.hasStarted) job')
    (installed : ∀ job' j, (job', j) ∈ q.installed ↔ (job', j) ∈ p.installed) :
    Started q (starts ++ [(i, job)]) := by
  have new (j : Nat) : (j, job) ∉ starts := by
    intro old
    have begun := ((h.mem_iff j job).1 old).2
    rw [before] at begun
    cases begun
  refine ⟨?_, fun j job' => ?_⟩
  · rw [List.map_append, List.map_cons, List.map_nil, List.nodup_append]
    refine ⟨h.once, List.nodup_singleton _, ?_⟩
    rintro _ hold _ hnew rfl
    obtain ⟨⟨j, job'⟩, hmem, hj⟩ := List.mem_map.1 hold
    obtain rfl : job' = job := hj.trans (List.mem_singleton.1 hnew)
    exact new j hmem
  · rw [List.mem_append, h.mem_iff, installed, List.mem_singleton, Prod.mk.injEq]
    by_cases own : job' = job
    · subst own
      rw [after, before]
      constructor
      · rintro (⟨-, begun⟩ | ⟨rfl, -⟩)
        · cases begun
        · exact ⟨mine, rfl⟩
      · rintro ⟨hj, -⟩
        exact .inr ⟨hl.installed_unique hj mine, rfl⟩
    · rw [elsewhere job' own]
      simp [own]

/-- Every move keeps the list of starts in step with the jobs. -/
theorem Started.jobMove {starts : List (Nat × Nat)} (h : Started p starts) (hl : p.Ledger)
    {a : Action} (m : JobMove p a q) : Started q (starts ++ starting p a q) := by
  cases m with
  | quiet hu lodged =>
    refine h.same ?_ fun i job => by rw [installed_congr lodged, hu.jobIs_eq]
    refine starting_eq_nil fun i w x job job' _ hw hx entering inside => ?_
    obtain ⟨w', hw', -, course, -⟩ := hu.workers i x hx
    obtain rfl : w = w' := Option.some.inj (hw.symm.trans hw')
    simp [Worker.course, entering, inside] at course
  | begin e he hworkers hjobs lodged =>
    refine h.same ?_ fun i job => ?_
    · refine starting_eq_nil fun i w x job job' _ hw hx entering inside => ?_
      rw [hworkers, hw, Option.some.injEq] at hx
      simp [← hx, entering] at inside
    · rw [installed_begin lodged]
      refine and_congr_right fun hi => ?_
      rw [jobIs_push hjobs (hl.installed_lt hi)]
  | install k job i w x before hw hempty hfull hcourse hruns hworkers hjobs lodged =>
    refine h.same ?_ fun j job' => ?_
    · refine starting_eq_nil fun j y z job' job'' _ hy hz entering inside => ?_
      rw [hworkers] at hz
      rcases getElem?_putWorker hz with ⟨rfl, rfl⟩ | ⟨-, hz⟩
      · simp [Worker.course, inside] at hcourse
      · rw [hy, Option.some.injEq] at hz
        simp [← hz, entering] at inside
    · rw [installed_install before lodged, jobIs_congr hjobs]
      constructor
      · rintro ⟨⟨rfl, rfl⟩ | old, begun⟩
        · rw [hl.jobIs_of_lodged before] at begun
          cases begun
        · exact ⟨old, begun⟩
      · rintro ⟨old, begun⟩
        exact ⟨.inr old, begun⟩
  | work i job w x phase e ha hw hphase hjob he hfollows hstate hx hruns hworkers hjobs lodged =>
    subst ha
    have before : p.jobIs (·.hasStarted) job = (phase.state e.ending).hasStarted := by
      simp [jobIs, he, hstate]
    have after : q.jobIs (·.hasStarted) job =
        ((phase.next e.ending).state e.ending).hasStarted := jobIs_set_self he hjobs
    have elsewhere (job' : Nat) (hne : job' ≠ job) :
        q.jobIs (·.hasStarted) job' = p.jobIs (·.hasStarted) job' := jobIs_set_of_ne hjobs hne
    by_cases entering : phase = .entering
    · subst entering
      have inside : starting p (.worker i) q = [(i, job)] := by
        have here : p.phase? i = some (.running job .entering) := by simp [phase?, hw, hphase]
        have there : q.phase? i = some x.phase := by simp [phase?, workers_set_self hw hworkers]
        rcases hx with ⟨finished, -⟩ | ⟨-, -, running⟩
        · cases finished
        · simp only [starting, here, there, running]
          rfl
      rw [inside]
      exact h.start hl (hl.carries_installed ⟨w, hw, hjob⟩) before after elsewhere fun _ _ =>
        installed_congr lodged
    · refine h.same ?_ fun j job' => ?_
      · refine starting_eq_nil fun j w' x' job' job'' hj hw' hx' entered _ => ?_
        cases hj
        obtain rfl : w = w' := Option.some.inj (hw.symm.trans hw')
        rw [hphase] at entered
        cases entered
        exact entering rfl
      · rw [installed_congr lodged]
        refine and_congr_right fun _ => ?_
        by_cases own : job' = job
        · subst own
          rw [before, after, Job.Phase.hasStarted_next hfollows]
          simp [entering]
        · rw [elsewhere job' own]

/-- The starts of a run are those of the installed jobs whose task was begun. -/
theorem started_run (config : Config)
    (spawner : Nat → Except StartFailure (Option Payload.Inert)) (actions : List Action) :
    Started ((create config spawner).run actions)
      ((create config spawner).seen starting actions) := by
  refine seen_keep ?_ ?_ actions
  · refine ⟨.nil, fun i job => ?_⟩
    have untouched : (create config spawner).installed = [] := by
      rcases create_cases config spawner with ⟨e, made⟩ | ⟨-, made⟩ <;> simp [made, installed]
    simp [untouched]
  · intro p q log a starts sound m h
    exact h.jobMove sound.ledger (sound.jobMove m)

/-! ## The workers' counts -/

/-- Whether a job that was installed in that slot has been counted by the worker. -/
def isCounted (p : Pool) (entry : Nat × Nat) : Bool :=
  p.isCompleted entry.1 || (p.workers[entry.2]?).any (·.isCompleting entry.1)

/-- The installed jobs that their workers have counted. -/
def counted (p : Pool) : List (Nat × Nat) := p.installed.filter p.isCounted

/-- How many jobs of a slot its worker has counted. -/
def countedIn (p : Pool) (i : Nat) : Nat := p.counted.countP (·.2 == i)

/-- Every worker's count is that of its installed jobs that have got past the count. -/
def Counted (p : Pool) : Prop :=
  ∀ (i : Nat) (w : Worker), p.workers[i]? = some w →
    w.slot.jobsRun.value = UInt64.ofNat (p.countedIn i)

section Counts

theorem Ledger.entries_nodup (h : p.Ledger) : p.installed.Nodup :=
  List.Nodup.of_map _ h.installed_nodup

/-- The number of counted jobs of a slot stays, if the installed jobs of the slot are counted as
before. -/
theorem countedIn_congr (hp : p.installed.Nodup) (hq : q.installed.Nodup) {i : Nat}
    (same : ∀ job, (job, i) ∈ q.installed ∧ q.isCounted (job, i) = true ↔
      (job, i) ∈ p.installed ∧ p.isCounted (job, i) = true) : q.countedIn i = p.countedIn i := by
  rw [countedIn, countedIn, List.countP_eq_length_filter, List.countP_eq_length_filter]
  refine List.Perm.length_eq ?_
  refine (List.perm_ext_iff_of_nodup ((hq.filter _).filter _) ((hp.filter _).filter _)).2 ?_
  rintro ⟨job, j⟩
  simp only [List.mem_filter, beq_iff_eq]
  constructor
  · rintro ⟨h, rfl⟩
    exact ⟨(same job).1 h, rfl⟩
  · rintro ⟨h, rfl⟩
    exact ⟨(same job).2 h, rfl⟩

/-- A worker has counted one job more if exactly one was counted and installed there since. -/
theorem countedIn_succ (hp : p.installed.Nodup) (hq : q.installed.Nodup) {i job : Nat}
    (new : ¬ ((job, i) ∈ p.installed ∧ p.isCounted (job, i) = true))
    (more : ∀ job', (job', i) ∈ q.installed ∧ q.isCounted (job', i) = true ↔
      job' = job ∨ (job', i) ∈ p.installed ∧ p.isCounted (job', i) = true) :
    q.countedIn i = p.countedIn i + 1 := by
  rw [countedIn, countedIn, List.countP_eq_length_filter, List.countP_eq_length_filter,
    ← List.length_cons (a := (job, i))]
  refine List.Perm.length_eq ?_
  refine (List.perm_ext_iff_of_nodup ((hq.filter _).filter _) (List.nodup_cons.2 ⟨?_, ?_⟩)).2 ?_
  · simp only [List.mem_filter, counted, beq_iff_eq]
    exact fun h => new h.1
  · exact (hp.filter _).filter _
  rintro ⟨job', j⟩
  simp only [List.mem_cons, List.mem_filter, counted, beq_iff_eq, Prod.mk.injEq]
  constructor
  · rintro ⟨h, rfl⟩
    exact ((more job').1 h).imp (fun e => ⟨e, rfl⟩) fun h => ⟨h, rfl⟩
  · rintro (⟨rfl, rfl⟩ | ⟨h, rfl⟩)
    · exact ⟨(more job').2 (.inl rfl), rfl⟩
    · exact ⟨(more job').2 (.inr h), rfl⟩

/-- A job is counted by one step of its course only. -/
theorem isCounted_next (task : Ending Unit) (phase : Job.Phase) :
    (phase.next task).isCounted = (phase.isCounting || phase.isCounted) := by
  cases phase with
  | leaving ending => cases ending <;> rfl
  | discarding payload => cases payload <;> rfl
  | _ => rfl

theorem tally_eq (jobsRun : Counter) (phase : Job.Phase) :
    phase.tally jobsRun = if phase.isCounting then jobsRun.increment else jobsRun := by
  cases phase <;> rfl

/-- Whether the job in a worker's hands was counted is told by where the worker stands in it. -/
theorem isCounted_of_running {i job : Nat} {w : Worker} {phase : Job.Phase} {e : Entry}
    (hw : p.workers[i]? = some w) (hphase : w.phase = .running job phase)
    (hjob : w.carried? = some job) (he : p.jobs[job]? = some e)
    (hstate : e.state = phase.state e.ending) : p.isCounted (job, i) = phase.isCounted := by
  have course : w.course = phase := by simp [Worker.course, hphase]
  simp only [isCounted, isCompleted, jobIs, he, hw, Option.any_some, hstate, Worker.isCompleting,
    hjob, course]
  cases phase <;> simp [Job.Phase.state, Job.Phase.isCounted]

/-- Installing a job counts none. -/
theorem Counted.install (h : p.Counted) (hl : p.Ledger) (hl' : q.Ledger) {k job i : Nat}
    {w x : Worker} (before : p.Lodged k job none) (hw : p.workers[i]? = some w)
    (hempty : w.carried? = none) (hcourse : x.course = .beginning)
    (hruns : x.slot.jobsRun = w.slot.jobsRun) (hworkers : q.workers = p.workers.set i x)
    (hjobs : q.jobs = p.jobs)
    (lodged : ∀ m job' slot?, q.Lodged m job' slot? ↔
      m = k ∧ job' = job ∧ slot? = some i ∨ m ≠ k ∧ p.Lodged m job' slot?) : q.Counted := by
  have here := workers_set_self hw hworkers
  have fresh : q.isCompleted job = false := by
    rw [isCompleted, jobIs_congr hjobs, hl.jobIs_of_lodged before]
    rfl
  have counted (job' j : Nat) : q.isCounted (job', j) = p.isCounted (job', j) := by
    simp only [isCounted, isCompleted, jobIs_congr hjobs]
    by_cases own : i = j
    · subst own
      simp [here, hw, Worker.isCompleting, hempty, hcourse]
    · rw [workers_set_of_ne hworkers own]
  have same (j : Nat) : q.countedIn j = p.countedIn j := by
    refine countedIn_congr hl.entries_nodup hl'.entries_nodup fun job' => ?_
    rw [installed_install before lodged]
    constructor
    · rintro ⟨⟨rfl, rfl⟩ | old, done⟩
      · simp [isCounted, fresh, here, Worker.isCompleting, hcourse] at done
      · exact ⟨old, counted job' j ▸ done⟩
    · rintro ⟨old, done⟩
      exact ⟨.inr old, (counted job' j).trans done⟩
  intro j y hy
  rw [same]
  by_cases own : i = j
  · subst own
    obtain rfl : x = y := Option.some.inj (here.symm.trans hy)
    rw [hruns]
    exact h i w hw
  · rw [workers_set_of_ne hworkers own] at hy
    exact h j y hy

section Work

variable {i job : Nat} {w x : Worker} {phase : Job.Phase} {e : Entry}
  (hw : p.workers[i]? = some w) (hphase : w.phase = .running job phase)
  (hjob : w.carried? = some job) (he : p.jobs[job]? = some e)
  (hstate : e.state = phase.state e.ending)
  (hx : phase.next e.ending = .done ∧ x.carried? = none ∨
    phase.next e.ending ≠ .done ∧ x.carried? = some job ∧
      x.phase = .running job (phase.next e.ending))
  (hworkers : q.workers = p.workers.set i x)
  (hjobs : q.jobs = p.jobs.setIfInBounds job
    { e with state := (phase.next e.ending).state e.ending })

include hw he hx hworkers hjobs in
/-- A job that moves on is counted as its next place says. -/
theorem isCounted_work : q.isCounted (job, i) = (phase.next e.ending).isCounted := by
  have new := jobs_set_self he hjobs
  rcases hx with ⟨finished, -⟩ | ⟨-, carried, running⟩
  · rw [finished]
    simp [isCounted, isCompleted, jobIs, new, finished, Job.Phase.state, Job.Phase.isCounted]
  · exact isCounted_of_running (workers_set_self hw hworkers) running carried new rfl

include hw hjob hx hworkers hjobs in
/-- The other jobs are counted as before. -/
theorem isCounted_work_of_ne {job' j : Nat} (hne : job' ≠ job) :
    q.isCounted (job', j) = p.isCounted (job', j) := by
  simp only [isCounted, isCompleted, jobIs_set_of_ne hjobs hne]
  by_cases own : i = j
  · subst own
    have away : w.isCompleting job' = false := by
      simp [Worker.isCompleting, hjob, Ne.symm hne]
    have away' : x.isCompleting job' = false := by
      rcases hx with ⟨-, none⟩ | ⟨-, carried, -⟩
      · simp [Worker.isCompleting, none]
      · simp [Worker.isCompleting, carried, Ne.symm hne]
    simp [workers_set_self hw hworkers, hw, away, away']
  · rw [workers_set_of_ne hworkers own]

include hw hphase hjob he hstate hx hworkers hjobs in
/-- A worker that takes its job one step on counts it exactly when the step does. -/
theorem Counted.work (h : p.Counted) (hl : p.Ledger) (hl' : q.Ledger)
    (hruns : x.slot.jobsRun = phase.tally w.slot.jobsRun)
    (lodged : ∀ k job' slot?, q.Lodged k job' slot? ↔ p.Lodged k job' slot?) : q.Counted := by
  have hp := hl.entries_nodup
  have hq := hl'.entries_nodup
  have mine : (job, i) ∈ p.installed := hl.carries_installed ⟨w, hw, hjob⟩
  have before := isCounted_of_running hw hphase hjob he hstate
  have after := isCounted_work hw he hx hworkers hjobs
  have elsewhere {job' j : Nat} (hne : job' ≠ job) :
      q.isCounted (job', j) = p.isCounted (job', j) :=
    isCounted_work_of_ne hw hjob hx hworkers hjobs hne
  intro j y hy
  by_cases own : i = j
  · subst own
    obtain rfl : x = y := Option.some.inj ((workers_set_self hw hworkers).symm.trans hy)
    rw [hruns, tally_eq]
    by_cases counting : phase.isCounting = true
    · rw [if_pos counting, Counter.value_increment, h i w hw, @countedIn_succ p q hp hq i job]
      · rw [UInt64.ofNat_add]
        rfl
      · rintro ⟨-, already⟩
        rw [before] at already
        cases phase <;> simp [Job.Phase.isCounted, Job.Phase.isCounting] at already counting
      · intro job'
        rw [installed_congr lodged]
        by_cases same : job' = job
        · subst same
          rw [after, isCounted_next, counting]
          simp [mine]
        · rw [elsewhere same]
          simp [same]
    · rw [if_neg counting, h i w hw, countedIn_congr hp hq]
      intro job'
      rw [installed_congr lodged]
      by_cases same : job' = job
      · subst same
        rw [after, before, isCounted_next, Bool.eq_false_iff.2 counting, Bool.false_or]
      · rw [elsewhere same]
  · rw [workers_set_of_ne hworkers own] at hy
    rw [h j y hy, countedIn_congr hp hq]
    intro job'
    rw [installed_congr lodged]
    by_cases same : job' = job
    · subst same
      exact ⟨fun hj => absurd (hl.installed_unique mine hj.1) own,
        fun hj => absurd (hl.installed_unique mine hj.1) own⟩
    · rw [elsewhere same]

end Work

/-- Every move keeps the counts of the workers in step with their jobs. -/
theorem Counted.jobMove (h : p.Counted) (hl : p.Ledger) (hl' : q.Ledger) {a : Action}
    (m : JobMove p a q) : q.Counted := by
  cases m with
  | quiet hu lodged =>
    intro i x hx
    obtain ⟨w, hw, carried, course, runs⟩ := hu.workers i x hx
    rw [runs, h i w hw, countedIn_congr hl.entries_nodup hl'.entries_nodup]
    intro job
    rw [installed_congr lodged]
    simp only [isCounted, isCompleted, hu.jobIs_eq, hx, hw, Option.any_some, Worker.isCompleting,
      carried, course]
  | begin e he hworkers hjobs lodged =>
    intro i x hx
    rw [hworkers] at hx
    rw [h i x hx, countedIn_congr hl.entries_nodup hl'.entries_nodup]
    intro job
    rw [installed_begin lodged]
    refine and_congr_right fun hi => ?_
    simp only [isCounted, isCompleted, jobIs_push hjobs (hl.installed_lt hi), hworkers]
  | install k job i w x before hw hempty hfull hcourse hruns hworkers hjobs lodged =>
    exact h.install hl hl' before hw hempty hcourse hruns hworkers hjobs lodged
  | work i job w x phase e ha hw hphase hjob he hfollows hstate hx hruns hworkers hjobs lodged =>
    exact h.work hw hphase hjob he hstate hx hworkers hjobs hl hl' hruns lodged

/-- In every reachable pool the workers have counted their jobs. -/
theorem Reachable.counted (h : Reachable config spawner p) : p.Counted := by
  refine h.keep ?_ ?_
  · intro i w hw
    have idle : w.slot.jobsRun.value = 0 ∧ (create config spawner).countedIn i = 0 := by
      rcases create_cases config spawner with ⟨e, made⟩ | ⟨-, made⟩
      · simp [made] at hw
      · rw [made] at hw ⊢
        rw [List.eq_of_mem_replicate (List.mem_of_getElem? hw)]
        exact ⟨rfl, rfl⟩
    rw [idle.1, idle.2]
    rfl
  · intro p q log a sound sound' m h
    exact h.jobMove sound.ledger sound'.ledger (sound.jobMove m)

/-- Jobs are installed at workers that there are. -/
theorem Reachable.installed_lt (h : Reachable config spawner p) :
    ∀ job i, (job, i) ∈ p.installed → i < p.size := by
  refine h.keep (motive := fun p => ∀ job i, (job, i) ∈ p.installed → i < p.size) ?_ ?_
  · intro job i hi
    have none : (create config spawner).installed = [] := by
      rcases create_cases config spawner with ⟨e, made⟩ | ⟨-, made⟩ <;> simp [made, installed]
    simp [none] at hi
  · intro p q log a sound _ m inside job i hi
    rw [m.size_eq]
    cases sound.jobMove m with
    | quiet hu lodged => exact inside job i ((installed_congr lodged).1 hi)
    | begin e he hworkers hjobs lodged => exact inside job i ((installed_begin lodged).1 hi)
    | install k job' j w x before hw hempty hfull hcourse hruns hworkers hjobs lodged =>
      rcases (installed_install before lodged).1 hi with ⟨-, rfl⟩ | old
      · exact (List.getElem?_eq_some_iff.1 hw).1
      · exact inside job i old
    | work j job' w x phase e ha hw hphase hjob he hfollows hstate hx hruns hworkers hjobs lodged =>
      exact inside job i ((installed_congr lodged).1 hi)

theorem countP_lt_succ (n : Nat) (l : List (Nat × Nat)) :
    l.countP (·.2 < n + 1) = l.countP (·.2 < n) + l.countP (·.2 == n) := by
  induction l with
  | nil => rfl
  | cons x l ih =>
    simp only [List.countP_cons, decide_eq_true_eq, beq_iff_eq, ih]
    split <;> split <;> split <;> omega

/-- Sorted by slot, nothing is left out or counted twice. -/
theorem sum_countP_range (n : Nat) (l : List (Nat × Nat)) :
    ((List.range n).map fun i => l.countP (·.2 == i)).sum = l.countP (·.2 < n) := by
  induction n with
  | zero => simp
  | succ n ih =>
    rw [countP_lt_succ, ← ih, List.range_succ]
    simp

theorem sum_ofNat (l : List Nat) : (l.map UInt64.ofNat).sum = UInt64.ofNat l.sum := by
  induction l with
  | nil => rfl
  | cons n l ih => rw [List.map_cons, List.sum_cons, ih, List.sum_cons, UInt64.ofNat_add]

/-- The counts of the slots add up to all jobs that were counted. -/
theorem Reachable.sum_countedIn (h : Reachable config spawner p) :
    ((List.range p.size).map p.countedIn).sum = p.counted.length := by
  show ((List.range p.size).map fun i => p.counted.countP (·.2 == i)).sum = _
  rw [sum_countP_range]
  refine List.countP_eq_length.2 ?_
  rintro ⟨job, i⟩ hi
  exact decide_eq_true (h.installed_lt job i (List.mem_filter.1 hi).1)

/-- The counters of the workers show how many jobs each has counted, modulo 2^64. -/
theorem Reachable.jobsRun_eq (h : Reachable config spawner p) :
    p.workers.map (·.slot.jobsRun.value) =
      ((List.range p.size).map p.countedIn).map UInt64.ofNat := by
  apply List.ext_getElem?
  intro i
  simp only [List.getElem?_map]
  cases hw : p.workers[i]? with
  | none =>
    rw [List.getElem?_eq_none_iff] at hw
    simp [size, hw]
  | some w =>
    have inside : i < p.size := (List.getElem?_eq_some_iff.1 hw).1
    simp [List.getElem?_range inside, h.counted i w hw]

end Counts

/-! ## Jobs that take their workers down -/

/-- Whether the task of a job leaves nothing behind that unwinds when it is dropped. -/
def isClean (p : Pool) (job : Nat) : Bool := (p.jobs[job]?).any fun e => e.ending.isClean

/-- Whether the worker of a slot unwound out of a job. -/
def HasFallen (p : Pool) (i job : Nat) : Prop := ∃ w, p.workers[i]? = some w ∧ w.fallen? = some job

theorem isClean_eq {job : Nat} {e : Entry} (he : p.jobs[job]? = some e) :
    p.isClean job = e.ending.isClean := by
  simp [isClean, he]

/-- Only a job whose payload can be dropped is published as completed. -/
theorem Reachable.clean_of_completed (h : Reachable config spawner p) :
    ∀ (job : Nat) (e : Entry), p.jobs[job]? = some e → e.state.status = .completed →
      e.ending.isClean = true := by
  refine h.keep (motive := fun p => ∀ (job : Nat) (e : Entry), p.jobs[job]? = some e →
    e.state.status = .completed → e.ending.isClean = true) ?_ ?_
  · intro job e he
    have none : (create config spawner).jobs = #[] := by
      rcases create_cases config spawner with ⟨e, made⟩ | ⟨-, made⟩ <;> simp [made]
    simp [none] at he
  · intro p q log a sound _ m clean job e he completed
    cases sound.jobMove m with
    | quiet hu lodged =>
      have inside : job < p.jobs.size := hu.size ▸ (Array.getElem?_eq_some_iff.1 he).1
      obtain ⟨e', he', state, ending⟩ := hu.jobs job _ (Array.getElem?_eq_getElem inside)
      obtain rfl : e = e' := Option.some.inj (he.symm.trans he')
      rw [ending]
      exact clean job _ (Array.getElem?_eq_getElem inside) (state ▸ completed)
    | begin e' he' hworkers hjobs lodged =>
      rw [hjobs, Array.getElem?_push] at he
      split at he
      · cases he
        rw [he'] at completed
        cases completed
      · exact clean job e he completed
    | install k job' i w x before hw hempty hfull hcourse hruns hworkers hjobs lodged =>
      rw [hjobs] at he
      exact clean job e he completed
    | work i job' w x phase e' ha hw hphase hjob he' hfollows hstate hx hruns hworkers hjobs
        lodged =>
      by_cases own : job = job'
      · subst own
        rw [jobs_set_self he' hjobs] at he
        cases he
        have last := Job.Phase.status_state_eq_completed_iff.1 completed
        have follows := hfollows.next
        rw [last] at follows
        exact follows
      · rw [jobs_set_of_ne hjobs own] at he
        exact clean job e he completed

/-- Only a job whose payload can be dropped is counted. -/
theorem Reachable.clean_of_counted (h : Reachable config spawner p) {job i : Nat}
    (counted : (job, i) ∈ p.counted) : p.isClean job = true := by
  rcases Bool.or_eq_true_iff.1 (List.mem_filter.1 counted).2 with completed | completing
  · obtain ⟨e, he, status⟩ := isCompleted_iff.1 completed
    exact (isClean_eq he).trans (h.clean_of_completed job e he status)
  · obtain ⟨w, hw, completing⟩ := Option.any_eq_true _ _ |>.1 completing
    simp only [Worker.isCompleting, Bool.and_eq_true, beq_iff_eq] at completing
    obtain ⟨carried, course⟩ := completing
    obtain ⟨e, he, follows, -⟩ := h.sound.ledger.course i w job hw carried
    split at course
    · next completing =>
      rw [completing] at follows
      exact (isClean_eq he).trans follows
    · cases course

/-- A job that took its worker down is accepted, and dropping its payload unwinds. -/
theorem Sound.unclean_of_fallen (h : p.Sound) {job i : Nat} (fallen : p.HasFallen i job) :
    (job, i) ∈ p.installed ∧ p.isClean job = false := by
  obtain ⟨w, hw, fallen⟩ := fallen
  unfold Worker.fallen? at fallen
  split at fallen
  · next payload hphase =>
    cases fallen
    have allows := (h.slots i w hw).allows
    rw [hphase] at allows
    have carried : w.carried? = some job := by
      simp [Worker.carried?, Worker.job?, hphase, allows.2]
    obtain ⟨e, he, ending⟩ := h.task_of_broken hw hphase
    refine ⟨h.ledger.carries_installed ⟨w, hw, carried⟩, (isClean_eq he).trans ?_⟩
    rw [ending]
    rfl
  · cases fallen

/-- Once every worker is out, a job that is not completed has taken its worker down. -/
theorem Sound.fallen_of_unfinished (h : p.Sound)
    (out : ∀ (i : Nat) (w : Worker), p.workers[i]? = some w → w.isOut = true) {job i : Nat}
    (hi : (job, i) ∈ p.unfinished) : p.HasFallen i job := by
  obtain ⟨w, hw, carried⟩ := h.ledger.carries_of_unfinished hi
  exact ⟨w, hw, ((h.slots i w hw).of_isOut (out i w hw)).2.symm.trans carried⟩

/-- Once every worker is out, the jobs that are completed are those whose payloads could be
dropped. -/
theorem Reachable.completed_of_out (h : Reachable config spawner p)
    (out : ∀ (i : Nat) (w : Worker), p.workers[i]? = some w → w.isOut = true) (job i : Nat)
    (hi : (job, i) ∈ p.installed) :
    p.isCompleted job = p.isClean job ∧ (p.isClean job = false → p.HasFallen i job) := by
  cases completed : p.isCompleted job with
  | true =>
    obtain ⟨e, he, status⟩ := isCompleted_iff.1 completed
    have clean := (isClean_eq he).trans (h.clean_of_completed job e he status)
    exact ⟨clean.symm, fun dirty => absurd (clean.symm.trans dirty) (by decide)⟩
  | false =>
    have listed : (job, i) ∈ p.unfinished := List.mem_filter.2 ⟨hi, by simp [completed]⟩
    have fallen := h.sound.fallen_of_unfinished out listed
    exact ⟨(h.sound.unclean_of_fallen fallen).2.symm, fun _ => fallen⟩

/-! ## Exactly once -/

/-- Every job is run once: what the starts seen so far, the slots and the counts say about it. -/
structure ExactlyOnce (p : Pool) (starts : List (Nat × Nat)) : Prop where
  once : (starts.map Prod.snd).Nodup
  /-- A job is started by the worker of the slot it was installed in. -/
  own : ∀ i job, (i, job) ∈ starts → (job, i) ∈ p.installed
  completed : ∀ i job, (job, i) ∈ p.installed → p.isCompleted job = true → (i, job) ∈ starts
  refused : ∀ k job, p.Submits k job .refused → ∀ i, (i, job) ∉ starts
  /-- No worker leaves a job behind. -/
  leaves : ∀ (i : Nat) (w : Worker), p.workers[i]? = some w → w.isLeaving = true →
    w.slot.cell = none
  /-- The unfinished jobs are of different slots. -/
  apart : (p.unfinished.map Prod.snd).Nodup
  few : p.unfinished.length ≤ p.size
  /-- The counters add up to the number of counted jobs, modulo the width of the counters. -/
  sum : (p.workers.map (·.slot.jobsRun.value)).sum = UInt64.ofNat p.counted.length
  exact_sum : p.counted.length < 2 ^ 64 →
    (p.workers.map (·.slot.jobsRun.value.toNat)).sum = p.counted.length
  /-- A job is not counted if dropping the payload of its task unwinds. -/
  clean : ∀ job i, (job, i) ∈ p.counted → p.isClean job = true
  /-- Once every worker is out, all other jobs are done and counted, and a job of this kind has
  taken its worker down. -/
  settled : (∀ (i : Nat) (w : Worker), p.workers[i]? = some w → w.isOut = true) →
    p.counted = p.installed.filter (fun entry => p.isClean entry.1) ∧
      ∀ job i, (job, i) ∈ p.installed → p.isCompleted job = p.isClean job ∧
        (p.isClean job = false → p.HasFallen i job)

/-- A submission moves on by its own steps only. -/
theorem Move.submits_other {a : Action} (m : Move p log a q) {k job : Nat} {s : Submission}
    (other : a ≠ .call k) (h : p.Submits k job s) : q.Submits k job s := by
  have elsewhere {q : Pool} {k' : Nat} {c' : Call} (ne : Action.call k' ≠ .call k)
      (hq : q.Submits k job s) : (q.putCall k' c').Submits k job s := by
    obtain ⟨y, hy, hys⟩ := hq
    have there : k ≠ k' := fun e => ne (by rw [e])
    exact ⟨y, by rwa [getElem?_putCall_of_ne there], hys⟩
  cases m with
  | stay | release | rouse => exact h
  | worker hw m => simpa only [Submits, m.calls_eq] using h
  | submission hc hs m => exact elsewhere other (by simpa only [Submits, m.calls_eq] using h)
  | reaping hc hs m => exact elsewhere other (m.submits_iff.2 h)
  | nudging hc hs m => exact elsewhere other (by simpa only [Submits, m.calls_eq] using h)
  | creation m =>
    cases m with
    | rollBack hcreation m | drop hcreation m => exact m.submits_iff.2 h
    | _ => exact h
  | @begin thread request hr => cases request <;> exact submits_addCall.2 (.inr h)
  | rouseReapers => exact submits_notifyReaped.2 h

/-- By its own step a submission goes on, if it goes on at all. -/
theorem Move.submits_own {k job : Nat} {s : Submission} (m : Move p log (.call k) q)
    (h : p.Submits k job s) :
    q = p ∨ ∃ s' q', SubmissionMove p log job s s' q' ∧ q.Submits k job s' ∧
      q.workers = q'.workers := by
  obtain ⟨c, hc, hs⟩ := h
  cases m with
  | stay => exact .inl rfl
  | @submission _ _ _ _ s' q' hc' hs' m =>
    rw [hc, Option.some.injEq] at hc'
    subst hc'
    rw [hs, Activity.submitting.injEq] at hs'
    obtain ⟨rfl, rfl⟩ := hs'
    exact .inr ⟨s', q', m, ⟨_, getElem?_putCall_self (by rwa [m.calls_eq]), rfl⟩, rfl⟩
  | reaping hc' hs' | nudging hc' hs' =>
    rw [hc, Option.some.injEq] at hc'
    subst hc'
    rw [hs] at hs'
    cases hs'

/-- A call that has returned is over for good. -/
theorem Move.submits_over {a : Action} (m : Move p log a q) {k job : Nat} {s : Submission}
    (finished : (Activity.submitting job s).isOver = true) (h : p.Submits k job s) :
    q.Submits k job s := by
  by_cases own : a = .call k
  · subst own
    rcases m.submits_own h with rfl | ⟨s', q', m', after, -⟩
    · exact h
    · cases m' with
      | stay => exact after
      | _ => cases finished
  · exact m.submits_other own h

/-- A submission that is over stays as it is. -/
theorem Reachable.submits_over (h : Reachable config spawner p) {k job : Nat} {s : Submission}
    (finished : (Activity.submitting job s).isOver = true) (hs : p.Submits k job s)
    (more : List Action) : (p.run more).Submits k job s := by
  induction more generalizing p with
  | nil => exact hs
  | cons a more ih => exact ih (h.step a) ((h.sound.move_step a).2.submits_over finished hs)

theorem Ledger.refused_not_installed (h : p.Ledger) {k job : Nat} (hs : p.Submits k job .refused)
    (i : Nat) : (job, i) ∉ p.installed :=
  h.not_installed ⟨_, hs, rfl⟩ i

/-- On every run each job is run once, and one that was refused is never run.  In the end all jobs
are completed and counted but those whose payload unwound when it was dropped. -/
theorem exactlyOnce_run (config : Config)
    (spawner : Nat → Except StartFailure (Option Payload.Inert)) (actions more : List Action) :
    ExactlyOnce ((create config spawner).run actions)
        ((create config spawner).seen starting actions) ∧
      ∀ k job, ((create config spawner).run actions).Submits k job .refused →
        ∀ i, (i, job) ∉ (create config spawner).seen starting (actions ++ more) := by
  have reached : Reachable config spawner ((create config spawner).run actions) :=
    Reachable.start.run actions
  have sound := reached.sound
  have ledger := sound.ledger
  have started := started_run config spawner actions
  set p := (create config spawner).run actions
  have all := reached.sum_countedIn
  have done {job i : Nat} (hi : (job, i) ∈ p.installed) (completed : p.isCompleted job = true) :
      p.jobIs (·.hasStarted) job = true := by
    obtain ⟨e, he, status⟩ := isCompleted_iff.1 completed
    simp [jobIs, he, Job.State.hasStarted, status]
  refine ⟨⟨started.once, fun i job h => ((started.mem_iff i job).1 h).1, ?_, ?_, ?_,
    ledger.unfinished_nodup, ledger.unfinished_length_le, ?_, ?_,
    fun job i => reached.clean_of_counted, ?_⟩, ?_⟩
  · intro i job hi completed
    exact (started.mem_iff i job).2 ⟨hi, done hi completed⟩
  · intro k job hs i hi
    exact ledger.refused_not_installed hs i ((started.mem_iff i job).1 hi).1
  · intro i w hw leaving
    exact (sound.slots i w hw).cell_of_leaving leaving
  · rw [reached.jobsRun_eq, sum_ofNat, all]
  · intro small
    have exact_counts : p.workers.map (·.slot.jobsRun.value.toNat) =
        (List.range p.size).map p.countedIn := by
      have values := congrArg (List.map UInt64.toNat) reached.jobsRun_eq
      simp only [List.map_map] at values
      refine values.trans (List.map_congr_left fun i hi => ?_)
      have bound : p.countedIn i ≤ p.counted.length := List.countP_le_length
      simp only [Function.comp_apply, UInt64.toNat_ofNat']
      exact Nat.mod_eq_of_lt (by omega)
    rw [exact_counts, all]
  · intro out
    have finished := reached.completed_of_out out
    refine ⟨List.filter_congr ?_, finished⟩
    rintro ⟨job, i⟩ hi
    show p.isCounted (job, i) = p.isClean job
    cases clean : p.isClean job with
    | true => simp [isCounted, (finished job i hi).1, clean]
    | false =>
      refine Bool.eq_false_iff.2 fun counted => ?_
      have tame := reached.clean_of_counted (List.mem_filter.2 ⟨hi, counted⟩)
      exact absurd (clean.symm.trans tame) (by decide)
  · intro k job hs i hi
    have later := started_run config spawner (actions ++ more)
    rw [run_append] at later
    have reached' : Reachable config spawner (p.run more) := reached.run more
    have still := reached.submits_over rfl hs more
    exact reached'.sound.ledger.refused_not_installed still i ((later.mem_iff i job).1 hi).1

/-- One job is run to its end, then a stop is asked for, and the next job is refused. -/
def lateComer : List Action :=
  making ++ submitting 0 5 ++ List.replicate 14 (.worker 0) ++ reaping 1 2 ++ submitting 2 1

set_option maxRecDepth 4000 in
/-- Of two jobs handed in, the first is started by the first worker, and counted and completed; the
second is refused and never started. -/
theorem exactlyOnce_of_lateComer :
    ((create pair steady).seen starting lateComer = [(0, 0)] ∧
      ((create pair steady).run lateComer).counted = [(0, 0)] ∧
      ((create pair steady).run lateComer).isCompleted 0 = true) ∧
    ExactlyOnce ((create pair steady).run lateComer)
        ((create pair steady).seen starting lateComer) ∧
      ∀ k job, ((create pair steady).run lateComer).Submits k job .refused →
        ∀ i, (i, job) ∉ (create pair steady).seen starting (lateComer ++ [.worker 1]) :=
  ⟨by decide, exactlyOnce_run pair steady lateComer [.worker 1]⟩

/-- A job unwinds with a payload whose destructor unwinds too, and then the pool is stopped. -/
def downfall : List Action :=
  making ++ .begin .main (.submit (.error (.bomb .other)) false) :: List.replicate 5 (.call 0) ++
    List.replicate 14 (.worker 0) ++ reaping 1 2 ++ List.replicate 5 (.worker 1)

set_option maxRecDepth 4000 in
/-- **An accepted job need not be counted or completed.**  Both workers are out, the job was
installed and started, and it is neither counted nor completed: dropping its payload took its worker
down. -/
theorem exists_uncounted :
    let p := (create pair steady).run downfall
    p.workers.all Worker.isOut = true ∧ p.installed = [(0, 0)] ∧
      (create pair steady).seen starting downfall = [(0, 0)] ∧
      p.jobIs (fun s => s.status == .finishing && s.panicked) 0 = true ∧ p.counted = [] ∧
      p.workers.map (·.slot.jobsRun.value) = [0, 0] := by
  decide

end Pool

end Interlock
