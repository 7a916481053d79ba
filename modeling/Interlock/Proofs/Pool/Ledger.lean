import Interlock.Proofs.Pool.Idle

/-!
# Where the jobs are

`JobMove` is what a move means for the jobs.  Three moves concern them: a call begins and brings a
fresh job, a submitter installs its job, and a worker goes on in a job.  All others leave every job
where it is.  The ledger is kept by each of the four (`Ledger.jobMove`), and so is whatever else is
said about jobs.
-/

namespace Interlock.Pool

variable {p q : Pool} {log : Array (Thread × Log.Line)}

/-! ## Jobs that are left alone -/

/-- Between two states no job changed hands. -/
structure Untouched (p q : Pool) : Prop where
  workers : ∀ (i : Nat) (x : Worker), q.workers[i]? = some x → ∃ w, p.workers[i]? = some w ∧
    x.carried? = w.carried? ∧ x.course = w.course ∧ x.slot.jobsRun = w.slot.jobsRun
  kept : ∀ (i : Nat) (w : Worker), p.workers[i]? = some w → ∃ x, q.workers[i]? = some x ∧
    x.carried? = w.carried?
  size : q.jobs.size = p.jobs.size
  jobs : ∀ (job : Nat) (e : Entry), p.jobs[job]? = some e → ∃ e', q.jobs[job]? = some e' ∧
    e'.state = e.state ∧ e'.ending = e.ending

/-- Where no job is touched, workers carry what they carried. -/
theorem Untouched.carries_iff (h : Untouched p q) {i job : Nat} :
    q.Carries i job ↔ p.Carries i job := by
  constructor
  · rintro ⟨x, hx, hjob⟩
    obtain ⟨w, hw, same, -⟩ := h.workers i x hx
    exact ⟨w, hw, same ▸ hjob⟩
  · rintro ⟨w, hw, hjob⟩
    obtain ⟨x, hx, same⟩ := h.kept i w hw
    exact ⟨x, hx, same.trans hjob⟩

theorem Untouched.of_eq (hw : q.workers = p.workers) (hj : q.jobs = p.jobs) : Untouched p q where
  workers i x hx := ⟨x, hw ▸ hx, rfl, rfl, rfl⟩
  kept i w h := ⟨w, by rwa [hw], rfl⟩
  size := by rw [hj]
  jobs job e he := ⟨e, by rwa [hj], rfl, rfl⟩

/-- Where no worker is disturbed, no job is touched. -/
theorem Undisturbed.untouched (h : Undisturbed p q) (hj : q.jobs = p.jobs) : Untouched p q := by
  have same (w : Worker) : w.notified.carried? = w.carried? ∧ w.notified.course = w.course := by
    simp only [Worker.carried?, slot_notified, Worker.job?, Worker.course]
    rcases phase_notified w with ⟨waiting, checking⟩ | ⟨-, e⟩
    · simp [waiting, checking]
    · simp [e]
  refine ⟨?_, ?_, by rw [hj], fun job e he => ⟨e, by rwa [hj], rfl, rfl⟩⟩
  · intro i x hx
    obtain ⟨w, hw, e⟩ := h.before hx
    refine ⟨w, hw, ?_⟩
    rcases e with rfl | rfl
    · exact ⟨rfl, rfl, rfl⟩
    · exact ⟨(same w).1, (same w).2, by rw [slot_notified]⟩
  · intro i w hw
    obtain ⟨x, hx, e⟩ := h.after hw
    refine ⟨x, hx, ?_⟩
    rcases e with rfl | rfl
    · rfl
    · exact (same w).1

/-- A worker that moves without its job touches none. -/
theorem Untouched.put {i : Nat} {w x : Worker} (hw : p.workers[i]? = some w)
    (hq : q.workers = p.workers.set i x) (hj : q.jobs = p.jobs)
    (hcarried : x.carried? = w.carried?) (hcourse : x.course = w.course)
    (hruns : x.slot.jobsRun = w.slot.jobsRun) : Untouched p q := by
  refine ⟨?_, ?_, by rw [hj], fun job e he => ⟨e, by rwa [hj], rfl, rfl⟩⟩
  · intro j y hy
    rw [hq] at hy
    rcases getElem?_putWorker hy with ⟨rfl, rfl⟩ | ⟨-, hy⟩
    · exact ⟨w, hw, hcarried, hcourse, hruns⟩
    · exact ⟨y, hy, rfl, rfl, rfl⟩
  · intro j y hy
    by_cases here : i = j
    · subst here
      obtain rfl : w = y := Option.some.inj (hw.symm.trans hy)
      exact ⟨x, workers_set_self hw hq, hcarried⟩
    · exact ⟨y, by rwa [workers_set_of_ne hq here], rfl⟩

/-! ## What a move means for the jobs -/

/-- A move, as far as the jobs are concerned. -/
inductive JobMove (p : Pool) (a : Action) (q : Pool) : Prop
  | quiet (hu : Untouched p q)
      (lodged : ∀ k job slot?, q.Lodged k job slot? ↔ p.Lodged k job slot?)
  /-- A call begins; its job is the next number. -/
  | begin (e : Entry) (he : e.state = {}) (hworkers : q.workers = p.workers)
      (hjobs : q.jobs = p.jobs.push e)
      (lodged : ∀ k job slot?, q.Lodged k job slot? ↔
        k = p.calls.size ∧ job = p.jobs.size ∧ slot? = none ∨ p.Lodged k job slot?)
  /-- A submitter fills the cell of a worker that has no job. -/
  | install (k job i : Nat) (w x : Worker) (before : p.Lodged k job none)
      (hw : p.workers[i]? = some w) (hempty : w.carried? = none) (hfull : x.carried? = some job)
      (hcourse : x.course = .beginning) (hruns : x.slot.jobsRun = w.slot.jobsRun)
      (hworkers : q.workers = p.workers.set i x) (hjobs : q.jobs = p.jobs)
      (lodged : ∀ m job' slot?, q.Lodged m job' slot? ↔
        m = k ∧ job' = job ∧ slot? = some i ∨ m ≠ k ∧ p.Lodged m job' slot?)
  /-- A worker goes on in its job, or is through with it. -/
  | work (i job : Nat) (w x : Worker) (phase : Job.Phase) (e : Entry) (ha : a = .worker i)
      (hw : p.workers[i]? = some w) (hphase : w.phase = .running job phase)
      (hjob : w.carried? = some job) (he : p.jobs[job]? = some e)
      (hfollows : phase.Follows e.ending) (hstate : e.state = phase.state e.ending)
      (hx : phase.next e.ending = .done ∧ x.carried? = none ∨ phase.next e.ending ≠ .done ∧
        x.carried? = some job ∧ x.phase = .running job (phase.next e.ending))
      (hruns : x.slot.jobsRun = phase.tally w.slot.jobsRun)
      (hworkers : q.workers = p.workers.set i x)
      (hjobs : q.jobs = p.jobs.setIfInBounds job
        { e with state := (phase.next e.ending).state e.ending })
      (lodged : ∀ k job' slot?, q.Lodged k job' slot? ↔ p.Lodged k job' slot?)

section Moves

/-- The step of a worker is one of the moves that jobs see. -/
theorem Sound.jobMove_worker (h : p.Sound) {i : Nat} {w : Worker} (hw : p.workers[i]? = some w)
    (m : WorkerMove p log i w q) : JobMove p (.worker i) q := by
  have allows := (h.slots i w hw).allows
  have lodged (k job : Nat) (o : Option Nat) : q.Lodged k job o ↔ p.Lodged k job o := by
    simp only [Lodged, Submits, m.calls_eq]
  cases m with
  | @work job phase e hphase hgoes hjob =>
    rw [hphase] at allows
    have mine : w.carried? = some job := by simp [Worker.carried?, allows.2, Worker.job?, hphase]
    obtain ⟨e', he', follows, state⟩ := h.ledger.course i w job hw mine
    obtain rfl : e = e' := Option.some.inj (hjob.symm.trans he')
    have course : w.course = phase := by simp [Worker.course, hphase]
    rw [course] at follows state
    refine .work i job w _ phase e rfl hw hphase mine hjob follows state ?_ rfl rfl rfl lodged
    cases hnext : phase.next e.ending with
    | done => exact .inl ⟨rfl, by simp [Worker.carried?, allows.2, Worker.job?, phaseAfter]⟩
    | _ =>
      exact .inr ⟨by simp, by simp [Worker.carried?, allows.2, Worker.job?, phaseAfter], rfl⟩
  | attach hphase | announce hphase | wait hphase | start hphase | rest hphase | detach hphase
  | report hphase =>
    refine .quiet (.put hw rfl rfl ?_ ?_ rfl) lodged
    · simp [Worker.carried?, Worker.job?, hphase]
    · simp [Worker.course, hphase]
  | take hphase hcell | leave hphase hcell =>
    refine .quiet (.put hw rfl rfl ?_ ?_ rfl) lodged
    · simp [Worker.carried?, Worker.job?, hphase, hcell]
    · simp [Worker.course, hphase]

/-- The step of a submission is one of the moves that jobs see. -/
theorem Sound.jobMove_submission (h : p.Sound) {k job : Nat} {c : Call} {s s' : Submission}
    (hc : p.calls[k]? = some c) (hs : c.activity = .submitting job s)
    (m : SubmissionMove p log job s s' q) :
    JobMove p (.call k) (q.putCall k { c with activity := .submitting job s' }) := by
  -- a submission that does not install leaves its job where it was
  have stays (hcalls : q.calls = p.calls) (hu : Untouched p q) (same : s'.slot? = s.slot?) :
      JobMove p (.call k) (q.putCall k { c with activity := .submitting job s' }) := by
    refine .quiet ⟨hu.workers, hu.kept, hu.size, hu.jobs⟩ ?_
    intro m job' o
    rw [lodged_putCall_same (by rwa [hcalls]) hs same]
    simp only [Lodged, Submits, hcalls]
  cases m with
  | @install i w hw hstop hsleeps =>
    have fits := h.slots i w hw
    have allows := fits.allows
    have leaving := fits.stops
    have idle : w.carried? = none ∧ w.course = .beginning := by
      simp only [Worker.carried?, Worker.job?, Worker.course]
      cases hphase : w.phase <;>
        simp_all [Worker.Phase.Allows]
    exact .install k job i w
      { w with slot := { w.slot with status := .wakeRequested, cell := some job } }
      ⟨_, ⟨c, hc, hs⟩, rfl⟩ hw idle.1 (by simp [Worker.carried?]) idle.2 rfl rfl rfl
      fun m job' o => lodged_putCall (p := { p.putWorker i _ with log }) hc hs
  | @nudge i n n' q m =>
    refine stays m.calls_eq (m.undisturbed.untouched m.jobs_eq) ?_
    cases n' <;> rfl
  | @full waited hidle => cases waited <;> exact stays rfl (.of_eq rfl rfl) rfl
  | refuse | enter | pop | count | retry | giveBack | stay =>
    exact stays rfl (.of_eq rfl rfl) rfl

theorem ReapingMove.untouched {r r' : Reaping} (m : ReapingMove p log r r' q) :
    Untouched p q :=
  m.undisturbed.untouched m.jobs_eq

theorem ReapingMove.submits_iff {r r' : Reaping} (m : ReapingMove p log r r' q) {k job : Nat}
    {s : Submission} : q.Submits k job s ↔ p.Submits k job s := by
  cases m with
  | publish => exact submits_notifyReaped
  | nudge m => simp only [Submits, m.calls_eq]
  | _ => rfl

/-- Jobs see nothing of the creation. -/
theorem Sound.jobMove_creation (h : p.Sound) (m : CreationMove p log q) :
    JobMove p .creation q := by
  have frame (hu : Untouched p q) (hcalls : q.calls = p.calls) : JobMove p .creation q := by
    refine .quiet hu fun k job o => ?_
    simp only [Lodged, Submits, hcalls]
  cases m with
  | @prepare i w hcreation hw | @undo i w reason hcreation hw =>
    exact frame (.put hw rfl rfl rfl rfl rfl) rfl
  | @spawn i w exit hcreation hw hs =>
    have unborn :=
      (h.making.unborn_of .starting hw (by simp [hcreation, Creation.unborn])).1
    refine frame (.put hw rfl rfl ?_ ?_ rfl) rfl
    · simp [Worker.carried?, Worker.job?, unborn]
    · simp [Worker.course, unborn]
  | rollBack hcreation m | drop hcreation m =>
    have hu := m.untouched
    exact .quiet ⟨hu.workers, hu.kept, hu.size, hu.jobs⟩
      fun k job o => lodged_congr fun _ _ _ => m.submits_iff
  | _ => exact frame (.of_eq rfl rfl) rfl

/-- What each move of a sound pool means for the jobs. -/
theorem Sound.jobMove (h : p.Sound) {a : Action} (m : Move p log a q) : JobMove p a q := by
  -- a call that is no submission goes on
  have other {q : Pool} {k : Nat} {c : Call} {activity : Activity} (hu : Untouched p q)
      (hq : ∀ {k job s}, q.Submits k job s ↔ p.Submits k job s)
      (hc : q.calls[k]? = some c) (hs : c.activity.job? = none) (hs' : activity.job? = none) :
      JobMove p (.call k) (q.putCall k { c with activity }) := by
    refine .quiet ⟨hu.workers, hu.kept, hu.size, hu.jobs⟩ fun m job o => lodged_congr ?_
    intro m job s
    rw [submits_putCall_of_none hc _ hs hs']
    exact hq
  cases m with
  | stay => exact .quiet (.of_eq rfl rfl) fun _ _ _ => Iff.rfl
  | worker hw m => exact h.jobMove_worker hw m
  | submission hc hs m => exact h.jobMove_submission hc hs m
  | reaping hc hs m =>
    exact other m.untouched m.submits_iff (m.own_call hc hs) (by rw [hs]; rfl) rfl
  | nudging hc hs m =>
    exact other (m.undisturbed.untouched m.jobs_eq)
      (by simp only [Submits, m.calls_eq, implies_true])
      (by rwa [m.calls_eq]) (by rw [hs]; rfl) rfl
  | creation m => exact h.jobMove_creation m
  | @begin thread request hr =>
    have idle {activity : Activity} (hs : activity.job? = none) :
        JobMove p (.begin thread request) (p.addCall thread activity) := by
      refine .quiet (.of_eq rfl rfl) fun k job o => lodged_congr ?_
      intro k job s
      rw [submits_addCall]
      refine or_iff_right ?_
      rintro ⟨-, rfl⟩
      cases hs
    cases request with
    | submit ending gated =>
      refine .begin { ending, released := !gated } rfl rfl rfl ?_
      intro k job o
      have submits (s : Submission) : (p.beginCall thread (.submit ending gated)).Submits k job s ↔
          k = p.calls.size ∧ Activity.submitting p.jobs.size (.arriving false) =
            .submitting job s ∨ p.Submits k job s := submits_addCall
      simp only [Lodged, submits, Activity.submitting.injEq]
      constructor
      · rintro ⟨s, ⟨here, rfl, rfl⟩ | old, rfl⟩
        · exact .inl ⟨here, rfl, rfl⟩
        · exact .inr ⟨s, old, rfl⟩
      · rintro (⟨here, rfl, rfl⟩ | ⟨s, old, ho⟩)
        · exact ⟨_, .inl ⟨here, rfl, rfl⟩, rfl⟩
        · exact ⟨s, .inr old, ho⟩
    | reap => exact idle rfl
    | wake index => exact idle rfl
  | @release job =>
    refine .quiet ?_ fun _ _ _ => Iff.rfl
    refine ⟨fun i x hx => ⟨x, hx, rfl, rfl, rfl⟩, fun i w hw => ⟨w, hw, rfl⟩,
      Array.size_modify, ?_⟩
    intro job' e he
    simp only [Array.getElem?_modify, he]
    split <;> exact ⟨_, rfl, rfl, rfl⟩
  | @rouse i => exact .quiet ((Undisturbed.notify p i).untouched rfl) fun _ _ _ => Iff.rfl
  | rouseReapers =>
    exact .quiet (.of_eq rfl rfl) fun _ _ _ => lodged_congr fun _ _ _ => submits_notifyReaped

/-- No submission ends in a failed check. -/
theorem Sound.sturdy_move (h : p.Sound) {a : Action} (m : Move p log a q) (k job : Nat)
    (payload : Payload) : ¬ q.Submits k job (.broken payload) := by
  have old := h.ledger.sturdy k job payload
  have other {q : Pool} {k' : Nat} {c : Call} {activity : Activity}
      (hq : ∀ {k job s}, q.Submits k job s ↔ p.Submits k job s) (hc : q.calls[k']? = some c)
      (hs' : activity.job? = none) :
      ¬ (q.putCall k' { c with activity }).Submits k job (.broken payload) := by
    intro hs
    rcases (submits_putCall hc _).1 hs with ⟨-, rfl⟩ | ⟨-, hs⟩
    · cases hs'
    · exact old (hq.1 hs)
  cases m with
  | stay | release | rouse => exact old
  | worker hw m => simpa only [Submits, m.calls_eq] using old
  | @submission k' job' c s s' q hc hs m =>
    intro hbroken
    rcases (submits_putCall (by rwa [m.calls_eq]) _).1 hbroken with ⟨rfl, e⟩ | ⟨-, hs⟩
    · have e : s' = .broken payload := by cases e; rfl
      cases m with
      | nudge m => cases m <;> simp [Submission.afterNudge] at e
      | @full waited => cases waited <;> simp at e
      | stay hover =>
        subst e
        exact h.ledger.sturdy k job' payload ⟨c, hc, hs⟩
      | _ => cases e
    · simp only [Submits, m.calls_eq] at hs
      exact old hs
  | reaping hc hs m => exact other m.submits_iff (m.own_call hc hs) rfl
  | nudging hc hs m =>
    exact other (by simp only [Submits, m.calls_eq, implies_true]) (by rwa [m.calls_eq]) rfl
  | creation m =>
    cases m with
    | rollBack hcreation m | drop hcreation m => exact fun hs => old (m.submits_iff.1 hs)
    | _ => exact old
  | @begin thread request hr =>
    cases request <;>
      · intro hs
        rcases submits_addCall.1 hs with ⟨-, e⟩ | hs
        · cases e
        · exact old hs
  | rouseReapers => exact fun hs => old (submits_notifyReaped.1 hs)

end Moves

/-! ## The ledger -/

/-- The ledger stays right where no job is touched and none is lodged anew. -/
theorem Ledger.quiet (h : p.Ledger) (hu : Untouched p q)
    (lodged : ∀ k job slot?, q.Lodged k job slot? ↔ p.Lodged k job slot?)
    (sturdy : ∀ k job payload, ¬ q.Submits k job (.broken payload)) : q.Ledger where
  known k job o hl := by
    rw [hu.size]
    exact h.known k job o ((lodged k job o).1 hl)
  owned job hj := by
    rw [hu.size] at hj
    simpa only [lodged] using h.owned job hj
  single k m job o o' hk hm := h.single k m job o o' ((lodged _ _ _).1 hk) ((lodged _ _ _).1 hm)
  sturdy := sturdy
  fresh k job hl := by
    obtain ⟨⟨e, he, state⟩, free⟩ := h.fresh k job ((lodged _ _ _).1 hl)
    obtain ⟨e', he', same, -⟩ := hu.jobs job e he
    exact ⟨⟨e', he', same.trans state⟩, fun i hi => free i (hu.carries_iff.1 hi)⟩
  placed k job i hl := by
    rcases h.placed k job i ((lodged _ _ _).1 hl) with held | ⟨e, he, done⟩
    · exact .inl (hu.carries_iff.2 held)
    · obtain ⟨e', he', same, -⟩ := hu.jobs job e he
      exact .inr ⟨e', he', by rwa [same]⟩
  carried i job hi := by
    simpa only [lodged] using h.carried i job (hu.carries_iff.1 hi)
  course i x job hx hjob := by
    obtain ⟨w, hw, carried, course, -⟩ := hu.workers i x hx
    obtain ⟨e, he, follows, state⟩ := h.course i w job hw (carried ▸ hjob)
    obtain ⟨e', he', same, ending⟩ := hu.jobs job e he
    exact ⟨e', he', by rwa [course, ending], by rw [course, same, ending, state]⟩

/-- A job is carried by one worker only. -/
theorem Ledger.carrier_unique (h : p.Ledger) {i j job : Nat} (hi : p.Carries i job)
    (hj : p.Carries j job) : i = j := by
  obtain ⟨k, hk⟩ := h.carried i job hi
  obtain ⟨m, hm⟩ := h.carried j job hj
  obtain rfl := h.single k m job _ _ hk hm
  exact Option.some.inj (hk.unique hm).2

/-- A call begins; its job is the next number. -/
theorem Ledger.begin (h : p.Ledger) {e : Entry} (hnew : e.state = {})
    (hworkers : q.workers = p.workers) (hjobs : q.jobs = p.jobs.push e)
    (lodged : ∀ k job slot?, q.Lodged k job slot? ↔
      k = p.calls.size ∧ job = p.jobs.size ∧ slot? = none ∨ p.Lodged k job slot?)
    (sturdy : ∀ k job payload, ¬ q.Submits k job (.broken payload)) : q.Ledger := by
  have size : q.jobs.size = p.jobs.size + 1 := by rw [hjobs, Array.size_push]
  have old {job : Nat} {e : Entry} (he : p.jobs[job]? = some e) : q.jobs[job]? = some e := by
    have inside := (Array.getElem?_eq_some_iff.1 he).1
    rwa [hjobs, Array.getElem?_push, if_neg (by omega)]
  have new : q.jobs[p.jobs.size]? = some e := by
    rw [hjobs, Array.getElem?_push, if_pos rfl]
  have carries (i job : Nat) : q.Carries i job ↔ p.Carries i job := by
    simp only [Carries, hworkers]
  have unborn (i : Nat) : ¬ p.Carries i p.jobs.size := by
    intro hi
    obtain ⟨k, hk⟩ := h.carried i _ hi
    have inside := h.known k _ _ hk
    omega
  have inside {k job : Nat} {o : Option Nat} (hl : p.Lodged k job o) : k < p.calls.size := by
    obtain ⟨s, ⟨c, hc, -⟩, -⟩ := hl
    exact (Array.getElem?_eq_some_iff.1 hc).1
  refine ⟨?_, ?_, ?_, sturdy, ?_, ?_, ?_, ?_⟩
  · intro k job o hl
    rcases (lodged k job o).1 hl with ⟨-, rfl, -⟩ | hl
    · omega
    · have before := h.known k job o hl
      omega
  · intro job hj
    by_cases last : job = p.jobs.size
    · exact ⟨_, _, (lodged _ _ _).2 (.inl ⟨rfl, last, rfl⟩)⟩
    · obtain ⟨k, o, hl⟩ := h.owned job (by omega)
      exact ⟨k, o, (lodged _ _ _).2 (.inr hl)⟩
  · intro k m job o o' hk hm
    rcases (lodged _ _ _).1 hk with ⟨rfl, rfl, -⟩ | hk <;>
      rcases (lodged _ _ _).1 hm with ⟨rfl, hj, -⟩ | hm
    · rfl
    · have before := h.known _ _ _ hm
      omega
    · have before := h.known _ _ _ hk
      omega
    · exact h.single k m job o o' hk hm
  · intro k job hl
    rcases (lodged _ _ _).1 hl with ⟨-, rfl, -⟩ | hl
    · exact ⟨⟨_, new, hnew⟩, fun i hi => unborn i ((carries _ _).1 hi)⟩
    · obtain ⟨⟨e, he, state⟩, free⟩ := h.fresh k job hl
      exact ⟨⟨e, old he, state⟩, fun i hi => free i ((carries _ _).1 hi)⟩
  · intro k job i hl
    rcases (lodged _ _ _).1 hl with ⟨-, -, e⟩ | hl
    · cases e
    · refine (h.placed k job i hl).imp (carries _ _).2 ?_
      rintro ⟨e, he, done⟩
      exact ⟨e, old he, done⟩
  · intro i job hi
    obtain ⟨k, hk⟩ := h.carried i job ((carries _ _).1 hi)
    exact ⟨k, (lodged _ _ _).2 (.inr hk)⟩
  · intro i w job hw hjob
    rw [hworkers] at hw
    obtain ⟨e, he, rest⟩ := h.course i w job hw hjob
    exact ⟨e, old he, rest⟩

/-- After an installation the worker of the slot has the new job, and no other job moved. -/
theorem carries_install {job i : Nat} {w x : Worker} (hw : p.workers[i]? = some w)
    (hempty : w.carried? = none) (hfull : x.carried? = some job)
    (hworkers : q.workers = p.workers.set i x) (j job' : Nat) :
    q.Carries j job' ↔ j = i ∧ job' = job ∨ p.Carries j job' := by
  by_cases own : i = j
  · subst own
    have idle : ¬ p.Carries i job' := by
      rintro ⟨y, hy, hjob⟩
      obtain rfl : w = y := Option.some.inj (hw.symm.trans hy)
      simp [hempty] at hjob
    simp only [Carries, workers_set_self hw hworkers, Option.some.injEq, exists_eq_left', hfull,
      true_and]
    constructor
    · rintro rfl
      exact .inl rfl
    · rintro (rfl | old)
      · rfl
      · exact absurd old idle
  · simp [Carries, workers_set_of_ne hworkers own, Ne.symm own]

/-- A submitter installs its job in the empty cell of a worker. -/
theorem Ledger.install (h : p.Ledger) {k job i : Nat} {w x : Worker}
    (before : p.Lodged k job none) (hw : p.workers[i]? = some w) (hempty : w.carried? = none)
    (hfull : x.carried? = some job) (hcourse : x.course = .beginning)
    (hworkers : q.workers = p.workers.set i x) (hjobs : q.jobs = p.jobs)
    (lodged : ∀ m job' slot?, q.Lodged m job' slot? ↔
      m = k ∧ job' = job ∧ slot? = some i ∨ m ≠ k ∧ p.Lodged m job' slot?)
    (sturdy : ∀ k job payload, ¬ q.Submits k job (.broken payload)) : q.Ledger := by
  obtain ⟨⟨e, he, state⟩, -⟩ := h.fresh k job before
  have carries := carries_install hw hempty hfull hworkers
  refine ⟨?_, ?_, ?_, sturdy, ?_, ?_, ?_, ?_⟩
  · intro m job' o hl
    rw [hjobs]
    rcases (lodged m job' o).1 hl with ⟨-, rfl, -⟩ | ⟨-, hl⟩
    · exact h.known k _ _ before
    · exact h.known m job' o hl
  · intro job' hj
    rw [hjobs] at hj
    obtain ⟨m, o, hl⟩ := h.owned job' hj
    by_cases own : m = k
    · subst own
      exact ⟨m, some i, (lodged _ _ _).2 (.inl ⟨rfl, (hl.unique before).1, rfl⟩)⟩
    · exact ⟨m, o, (lodged _ _ _).2 (.inr ⟨own, hl⟩)⟩
  · intro m m' job' o o' hm hm'
    rcases (lodged _ _ _).1 hm with ⟨rfl, rfl, -⟩ | ⟨-, old⟩ <;>
      rcases (lodged _ _ _).1 hm' with ⟨rfl, same, -⟩ | ⟨-, old'⟩
    · rfl
    · exact h.single _ _ _ _ _ before old'
    · rw [same] at old
      exact h.single _ _ _ _ _ old before
    · exact h.single _ _ _ _ _ old old'
  · intro m job' hl
    rcases (lodged _ _ _).1 hl with ⟨-, -, e⟩ | ⟨other, old⟩
    · cases e
    · obtain ⟨entry, alone⟩ := h.fresh m job' old
      rw [hjobs]
      refine ⟨entry, fun j hj => ?_⟩
      rcases (carries j job').1 hj with ⟨-, same⟩ | held
      · rw [same] at old
        exact other (h.single _ _ _ _ _ old before)
      · exact alone j held
  · intro m job' j hl
    rcases (lodged _ _ _).1 hl with ⟨-, rfl, e⟩ | ⟨-, hl⟩
    · exact .inl ((carries j _).2 (.inl ⟨Option.some.inj e, rfl⟩))
    · rw [hjobs]
      exact (h.placed m job' j hl).imp (fun old => (carries j job').2 (.inr old)) id
  · intro j job' hj
    rcases (carries j job').1 hj with ⟨rfl, rfl⟩ | old
    · exact ⟨k, (lodged _ _ _).2 (.inl ⟨rfl, rfl, rfl⟩)⟩
    · obtain ⟨m, hm⟩ := h.carried j job' old
      refine ⟨m, (lodged _ _ _).2 (.inr ⟨?_, hm⟩)⟩
      rintro rfl
      cases (before.unique hm).2
  · intro j y job' hy hjob
    rw [hjobs]
    by_cases own : i = j
    · subst own
      rw [workers_set_self hw hworkers, Option.some.injEq] at hy
      subst hy
      obtain rfl : job = job' := Option.some.inj (hfull.symm.trans hjob)
      rw [hcourse]
      exact ⟨e, he, trivial, state⟩
    · rw [workers_set_of_ne hworkers own] at hy
      exact h.course j y job' hy hjob

/-- A worker that goes on in its job, or is through with it, takes no other job. -/
theorem carries_of_work {i j job job' : Nat} {w x : Worker} (hw : p.workers[i]? = some w)
    (hjob : w.carried? = some job) (hx : x.carried? = none ∨ x.carried? = some job)
    (hworkers : q.workers = p.workers.set i x) (hj : q.Carries j job') : p.Carries j job' := by
  obtain ⟨y, hy, hyjob⟩ := hj
  by_cases own : i = j
  · subst own
    rw [workers_set_self hw hworkers, Option.some.injEq] at hy
    subst hy
    rcases hx with none | same
    · simp [none] at hyjob
    · obtain rfl : job = job' := Option.some.inj (same.symm.trans hyjob)
      exact ⟨w, hw, hjob⟩
  · exact ⟨y, by rwa [← workers_set_of_ne hworkers own], hyjob⟩

/-- A worker that moves on with its job carries no other one. -/
theorem carries_work {i j job job' : Nat} {w x : Worker} (hw : p.workers[i]? = some w)
    (hjob : w.carried? = some job) (hworkers : q.workers = p.workers.set i x) (hne : job' ≠ job)
    (hj : p.Carries j job') : q.Carries j job' := by
  obtain ⟨y, hy, hyjob⟩ := hj
  by_cases own : i = j
  · subst own
    obtain rfl : w = y := Option.some.inj (hw.symm.trans hy)
    exact absurd (Option.some.inj (hyjob.symm.trans hjob)) hne
  · exact ⟨y, by rwa [workers_set_of_ne hworkers own], hyjob⟩

/-- A worker goes on in its job, or is through with it. -/
theorem Ledger.work (h : p.Ledger) {i job : Nat} {w x : Worker} {phase : Job.Phase} {e : Entry}
    (hw : p.workers[i]? = some w) (hjob : w.carried? = some job) (he : p.jobs[job]? = some e)
    (hfollows : phase.Follows e.ending)
    (hx : phase = .done ∧ x.carried? = none ∨ phase ≠ .done ∧ x.carried? = some job ∧
      x.phase = .running job phase)
    (hworkers : q.workers = p.workers.set i x)
    (hjobs : q.jobs = p.jobs.setIfInBounds job { e with state := phase.state e.ending })
    (lodged : ∀ k job' slot?, q.Lodged k job' slot? ↔ p.Lodged k job' slot?)
    (sturdy : ∀ k job payload, ¬ q.Submits k job (.broken payload)) : q.Ledger := by
  have mine : p.Carries i job := ⟨w, hw, hjob⟩
  have here := workers_set_self hw hworkers
  have others {j : Nat} (hj : i ≠ j) := workers_set_of_ne hworkers hj
  have size : q.jobs.size = p.jobs.size := by rw [hjobs, Array.size_setIfInBounds]
  have new := jobs_set_self he hjobs
  have old {job' : Nat} (hne : job' ≠ job) := jobs_set_of_ne hjobs hne
  have still {j job' : Nat} (hj : q.Carries j job') : p.Carries j job' :=
    carries_of_work hw hjob (hx.imp And.right fun running => running.2.1) hworkers hj
  refine ⟨?_, ?_, ?_, sturdy, ?_, ?_, ?_, ?_⟩
  · intro m job' o hl
    rw [size]
    exact h.known m job' o ((lodged _ _ _).1 hl)
  · intro job' hj
    rw [size] at hj
    simpa only [lodged] using h.owned job' hj
  · intro m m' job' o o' hm hm'
    exact h.single m m' job' o o' ((lodged _ _ _).1 hm) ((lodged _ _ _).1 hm')
  · intro m job' hl
    obtain ⟨⟨e', he', state⟩, free⟩ := h.fresh m job' ((lodged _ _ _).1 hl)
    have hne : job' ≠ job := by
      rintro rfl
      exact free i mine
    exact ⟨⟨e', (old hne).trans he', state⟩, fun j hj => free j (still hj)⟩
  · intro m job' j hl
    rw [lodged] at hl
    by_cases own : job' = job
    · subst own
      -- the worker's job was installed in the worker's slot, by the same submission
      obtain ⟨k, hk⟩ := h.carried i _ mine
      obtain rfl := h.single _ _ _ _ _ hk hl
      obtain rfl : i = j := Option.some.inj (Lodged.unique hk hl).2
      rcases hx with ⟨done, -⟩ | ⟨-, same, -⟩
      · exact .inr ⟨_, new, Job.Phase.status_state_eq_completed_iff.2 done⟩
      · exact .inl ⟨x, here, same⟩
    · rcases h.placed m job' j hl with held | ⟨e', he', done⟩
      · exact .inl (carries_work hw hjob hworkers own held)
      · exact .inr ⟨e', (old own).trans he', done⟩
  · intro j job' hj
    simpa only [lodged] using h.carried j job' (still hj)
  · intro j y job' hy hyjob
    by_cases own : i = j
    · subst own
      obtain rfl : x = y := Option.some.inj (here.symm.trans hy)
      rcases hx with ⟨-, none⟩ | ⟨-, same, running⟩
      · simp [none] at hyjob
      · obtain rfl : job = job' := Option.some.inj (same.symm.trans hyjob)
        have course : x.course = phase := by simp [Worker.course, running]
        exact ⟨_, new, by rwa [course], by rw [course]⟩
    · have hne : job' ≠ job := by
        rintro rfl
        rw [others own] at hy
        exact own (h.carrier_unique mine ⟨y, hy, hyjob⟩)
      rw [others own] at hy
      obtain ⟨e', he', rest⟩ := h.course j y job' hy hyjob
      exact ⟨e', (old hne).trans he', rest⟩

/-- Every move that jobs see keeps the ledger right. -/
theorem Ledger.jobMove (h : p.Ledger) {a : Action} (m : JobMove p a q)
    (sturdy : ∀ k job payload, ¬ q.Submits k job (.broken payload)) : q.Ledger := by
  cases m with
  | quiet hu lodged => exact h.quiet hu lodged sturdy
  | begin e he hworkers hjobs lodged => exact h.begin he hworkers hjobs lodged sturdy
  | install k job i w x before hw hempty hfull hcourse hruns hworkers hjobs lodged =>
    exact h.install before hw hempty hfull hcourse hworkers hjobs lodged sturdy
  | work i job w x phase e ha hw hphase hjob he hfollows hstate hx hruns hworkers hjobs lodged =>
    exact h.work hw hjob he hfollows.next hx hworkers hjobs lodged sturdy

theorem Sound.ledger_move (h : p.Sound) {a : Action} (m : Move p log a q) : q.Ledger :=
  h.ledger.jobMove (h.jobMove m) (h.sturdy_move m)

end Interlock.Pool
