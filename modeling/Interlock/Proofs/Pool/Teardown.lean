import Interlock.Proofs.Pool.Custody

/-!
# The end of a pool

However many parties stop a pool, and in whatever order they overtake each other, one of them joins
the workers, and none returns before that is done.  `TornDown` is what all of them find when they
return: the workers are gone, their jobs are done, and every later call comes to nothing.  What a
job leaves behind whose payload could not be dropped is an exception to the first two: it took its
worker down in the middle, and slot and job stay as they were then (`exists_forsaken`).
-/

namespace Interlock.Pool

variable {config : Config} {spawner : Nat → Except StartFailure (Option Payload.Inert)}
  {p q : Pool} {log : Array (Thread × Log.Line)}

/-! ## Flags that stay -/

theorem ReapingMove.reaped {r r' : Reaping} (m : ReapingMove p log r r' q)
    (h : p.control.isReaped = true) : q.control.isReaped = true := by
  rcases m.kind with ⟨-, -, -, same⟩ | ⟨-, -, -, same⟩ | ⟨_, _, _, -, -, -, -, same⟩ |
    ⟨_, -, -, -, reaped⟩ | ⟨-, -, -, same, -⟩
  · rw [same, h]
  · rw [same, h]
  · rw [same, h]
  · exact reaped
  · rw [same, h]

theorem ReaperMove.stops {a : Action} (m : ReaperMove p a q)
    (h : p.control.isStopping = true) : q.control.isStopping = true := by
  cases m with
  | quiet hu hcontrol | spawn i w x hp hq hw hunborn hborn hworkers hcontrol
  | store i hp hq hworkers hcontrol => rwa [hcontrol]
  | reap log who r r' s ha hr m hworkers hcontrol =>
    rw [hcontrol]
    exact m.stops h

theorem ReaperMove.reaped {a : Action} (m : ReaperMove p a q)
    (h : p.control.isReaped = true) : q.control.isReaped = true := by
  cases m with
  | quiet hu hcontrol | spawn i w x hp hq hw hunborn hborn hworkers hcontrol
  | store i hp hq hworkers hcontrol => rwa [hcontrol]
  | reap log who r r' s ha hr m hworkers hcontrol =>
    rw [hcontrol]
    exact m.reaped h

theorem Sound.stops_step (h : p.Sound) (hs : p.control.isStopping = true) (a : Action) :
    (p.step a).control.isStopping = true :=
  (h.reaperMove (h.move_step a).2).stops hs

theorem Sound.reaped_step (h : p.Sound) (hr : p.control.isReaped = true) (a : Action) :
    (p.step a).control.isReaped = true :=
  (h.reaperMove (h.move_step a).2).reaped hr

/-! ## Whoever returns finds the workers joined -/

/-- A reaper returns by one of four ways; on each of them the workers have been joined. -/
theorem Sound.reaped_of_return (h : p.Sound) {who : Party} {r : Reaping}
    (hr : p.standing who = some r) (m : ReapingMove p log r .returned q) :
    q.control.isReaped = true := by
  have fits := h.fits_of_standing hr
  generalize hr' : Reaping.returned = r' at m
  cases m with
  | known reaped => exact reaped
  | told told => exact h.roles.told told
  | cancel => exact p.control.isReaped_yieldReaping.trans fits
  | report => exact fits
  | stay =>
    subst hr'
    exact fits
  | nudge m => exact absurd (hr'.symm ▸ hasRole_afterNudge _ _ _) (by simp [Reaping.hasRole])
  | broadcast => exact absurd (hr'.symm ▸ hasRole_nudgeFrom _ _) (by simp [Reaping.hasRole])
  | _ => cases hr'

/-- Whether the maker of a pool has undone his work. -/
def Creation.isUndone : Creation → Bool
  | .dropping .. => true
  | .failed (.spawn ..) => true
  | _ => false

theorem isUndone_roused (i : Nat) (creation : Creation) :
    (creation.roused i).isUndone = creation.isUndone := by
  unfold Creation.roused
  split
  · next h => rw [h]; rfl
  · rfl

/-- Some call that stops and joins the workers has returned. -/
def ReapReturned (p : Pool) : Prop :=
  p.creation.isUndone = true ∨
    ∃ (k : Nat) (c : Call), p.calls[k]? = some c ∧ c.activity = .reaping .returned

/-- Only its maker changes how far a pool has been made; others at most wake him. -/
theorem Move.creation_eq {a : Action} (m : Move p log a q) :
    CreationMove p log q ∨ q.creation = p.creation ∨ ∃ i, q.creation = p.creation.roused i := by
  cases m with
  | stay | release | rouseReapers => exact .inr (.inl rfl)
  | @worker i w q hw m =>
    obtain ⟨-, -, -, -, hcreation⟩ := m.frame
    exact .inr (hcreation.imp id fun e => ⟨i, e⟩)
  | submission hc hs m => exact .inr m.creation
  | reaping hc hs m => exact .inr m.creation
  | nudging hc hs m => exact .inr m.creation
  | creation m => exact .inl m
  | @begin thread request hr => cases request <;> exact .inr (.inl rfl)
  | @rouse i => exact .inr (.inr ⟨i, rfl⟩)

theorem Reachable.reaped_of_undone (h : Reachable config spawner p) :
    p.creation.isUndone = true → p.control.isReaped = true := by
  refine h.keep (motive := fun p => p.creation.isUndone = true → p.control.isReaped = true) ?_ ?_
  · rcases create_cases config spawner with ⟨e, made⟩ | ⟨-, made⟩ <;>
      simp [made, Creation.isUndone]
  · intro p q log a sound _ m ih
    have reaped := (sound.reaperMove m).reaped
    rcases m.creation_eq with made | e | ⟨i, e⟩
    · cases made with
      | @rollBack i reason r r' q hcreation m' =>
        intro undone
        have returned : r' = .returned := by
          cases r' <;> first | rfl | cases undone
        subst returned
        have standing : p.standing .maker = some r := by
          simp [standing, hcreation, Creation.reaping?]
        exact (sound.reaped_of_return standing m' :)
      | @drop i reason r r' q hcreation m' =>
        exact fun _ => m'.reaped (ih (by rw [hcreation]; rfl))
      | @store i hcreation =>
        simp only [Creation.prepareFrom]
        split
        · rintro ⟨⟩
        · split <;> rintro ⟨⟩
      | @started i hcreation hs =>
        simp only [Creation.awaitFrom]
        split <;> rintro ⟨⟩
      | _ => rintro ⟨⟩
    · rw [e]
      exact fun undone => reaped (ih undone)
    · rw [e, isUndone_roused]
      exact fun undone => reaped (ih undone)

theorem Reachable.reaped_of_returned (h : Reachable config spawner p) (hr : p.ReapReturned) :
    p.control.isReaped = true := by
  rcases hr with undone | ⟨k, c, hc, hreturned⟩
  · exact h.reaped_of_undone undone
  · exact h.sound.fits_of_standing (standing_caller.2 ⟨c, hc, hreturned⟩)

/-! ## Later calls -/

section Later

/-- A submission that arrives while the pool stops is refused by its first step. -/
theorem step_arriving {k job : Nat} {waited : Bool} (hs : p.control.isStopping = true)
    (h : p.Submits k job (.arriving waited)) : (p.step (.call k)).Submits k job .refused := by
  obtain ⟨c, hc, harrives⟩ := h
  rw [step_submitting hc harrives]
  simp only [stepSubmission, hs, if_true]
  exact ⟨_, getElem?_putCall_self hc, rfl⟩

/-- A submission that arrives while the pool stops is refused as soon as it goes on. -/
theorem Reachable.submits_late (h : Reachable config spawner p) {k job : Nat} {waited : Bool}
    (hs : p.control.isStopping = true) (hk : p.Submits k job (.arriving waited))
    (more : List Action) :
    (p.run more).Submits k job .refused ∨
      (p.run more).Submits k job (.arriving waited) ∧ .call k ∉ more := by
  induction more generalizing p with
  | nil => exact .inr ⟨hk, by simp⟩
  | cons a more ih =>
    have sound := h.sound
    by_cases own : a = .call k
    · subst own
      exact .inl ((h.step _).submits_over rfl (step_arriving hs hk) more)
    · have still := (sound.move_step a).2.submits_other own hk
      refine (ih (h.step a) (sound.stops_step hs a) still).imp id ?_
      rintro ⟨arriving, absent⟩
      exact ⟨arriving, by simp [Ne.symm own, absent]⟩

/-- A reaper that arrives after the workers were joined returns at once, and changes nothing. -/
theorem step_arriving_reaper {k : Nat} {c : Call} (hr : p.control.isReaped = true)
    (hc : p.calls[k]? = some c) (h : c.activity = .reaping .arriving) :
    p.step (.call k) = p.putCall k { c with activity := .reaping .returned } := by
  rw [step_reaping hc h]
  simp only [stepReaping, hr, if_true]

theorem step_returned {k : Nat} {c : Call} (hc : p.calls[k]? = some c)
    (h : c.activity = .reaping .returned) : p.step (.call k) = p := by
  have same : p.calls.setIfInBounds k { c with activity := .reaping .returned } = p.calls := by
    apply Array.ext_getElem?
    intro m
    rw [Array.getElem?_setIfInBounds]
    split
    · next here =>
      subst here
      split
      · rw [hc, ← h]
      · next outside => rw [Array.getElem?_eq_none (by omega)]
    · rfl
  rw [step_reaping hc h]
  exact congrArg (fun calls => { p with calls }) same

end Later

/-! ## Torn down -/

/-- A pool whose workers are gone: what remains of it, and what later calls find. -/
structure TornDown (p : Pool) : Prop where
  stopping : p.control.isStopping = true
  reaped : p.control.isReaped = true
  cells : ∀ (i : Nat) (w : Worker), p.workers[i]? = some w → w.slot.cell = none
  /-- A worker has left its slot unless a job took it down. -/
  slots : ∀ (i : Nat) (w : Worker), p.workers[i]? = some w →
    w.slot.status = .notRunning ∧ w.fallen? = none ∨
      w.slot.status = .runningJob ∧ w.fallen?.isSome = true
  live : p.live.value.toNat = p.workers.countP (·.fallen?.isSome)
  jobs : ∀ job i, (job, i) ∈ p.installed →
    p.isCompleted job = p.isClean job ∧ (p.isClean job = false → p.HasFallen i job)
  /-- If the payload of every accepted job could be dropped, all are gone and all is done. -/
  clean : (∀ job i, (job, i) ∈ p.installed → p.isClean job = true) →
    (∀ (i : Nat) (w : Worker), p.workers[i]? = some w → w.slot.status = .notRunning) ∧
      p.live.value = 0 ∧ ∀ job i, (job, i) ∈ p.installed → p.isCompleted job = true
  /-- Whatever happens then, a job that is handed in is refused when its submission goes on, and
  its task is never begun. -/
  submits : p.creation = .ready → ∀ thread ending gated more,
    let q := (p.step (.begin thread (.submit ending gated))).run more
    (q.Submits p.calls.size p.jobs.size .refused ∨
      q.Submits p.calls.size p.jobs.size (.arriving false) ∧ .call p.calls.size ∉ more) ∧
    q.jobIs (·.hasStarted) p.jobs.size = false
  /-- Another call to reap returns by its first step, and changes nothing. -/
  reaps : p.creation = .ready → ∀ thread,
    (p.step (.begin thread .reap)).step (.call p.calls.size) =
      p.addCall thread (.reaping .returned)
  arriving : ∀ (k : Nat) (c : Call), p.calls[k]? = some c → c.activity = .reaping .arriving →
    p.step (.call k) = p.putCall k { c with activity := .reaping .returned }
  returned : ∀ (k : Nat) (c : Call), p.calls[k]? = some c → c.activity = .reaping .returned →
    p.step (.call k) = p

/-- A worker whose thread was not started is marked so when its maker is through. -/
theorem unborn_of_settled {creation : Creation} {i : Nat} {status : Worker.Status}
    (h : creation.unborn i = some status) (settled : creation.isSettled = true) :
    status = .notRunning := by
  cases creation with
  | rollingBack | dropping =>
    simp only [Creation.unborn] at h
    split at h <;> cases h
    rfl
  | failed e =>
    cases e with
    | spawn =>
      simp only [Creation.unborn] at h
      split at h <;> cases h
      rfl
    | _ => cases h
  | ready => cases h
  | _ => cases settled

/-- Once the workers have been joined, nothing is left of those whom no job took down. -/
theorem Reachable.status_of_reaped (h : Reachable config spawner p)
    (hr : p.control.isReaped = true) {i : Nat} {w : Worker} (hw : p.workers[i]? = some w) :
    w.slot.status = .notRunning ∧ w.fallen? = none ∨
      w.slot.status = .runningJob ∧ w.fallen?.isSome = true := by
  have sound := h.sound
  have settled := sound.ready.settled (sound.roles.stops hr)
  have out := h.isOut_of_joined (.inl hr) hw
  have allows := (sound.slots i w hw).allows
  cases hphase : w.phase with
  | unborn =>
    exact .inl ⟨unborn_of_settled (sound.making.unborn i w hw hphase) settled,
      by simp [Worker.fallen?, hphase]⟩
  | ended payload =>
    rw [hphase] at allows
    exact .inl ⟨allows.1, by simp [Worker.fallen?, hphase]⟩
  | running job phase =>
    rw [hphase] at allows
    cases phase with
    | broken payload => exact .inr ⟨allows.1, by simp [Worker.fallen?, hphase]⟩
    | _ => simp [Worker.isOut, hphase] at out
  | _ => simp [Worker.isOut, hphase] at out

theorem Reachable.tornDown (h : Reachable config spawner p) (hr : p.control.isReaped = true) :
    p.TornDown := by
  have sound := h.sound
  have stopping := sound.roles.stops hr
  have out (i : Nat) (w : Worker) (hw : p.workers[i]? = some w) : w.isOut = true :=
    h.isOut_of_joined (.inl hr) hw
  have slots (i : Nat) (w : Worker) (hw : p.workers[i]? = some w) := h.status_of_reaped hr hw
  have live : p.live.value.toNat = p.workers.countP (·.fallen?.isSome) := by
    rw [h.live_eq, liveSlots, List.countP_map]
    refine List.countP_congr fun w hw => ?_
    obtain ⟨i, hi⟩ := List.mem_iff_getElem?.1 hw
    rcases slots i w hi with ⟨status, fallen⟩ | ⟨status, fallen⟩ <;>
      simp [Worker.Slot.isLive, status, fallen]
  have jobs := h.completed_of_out out
  refine ⟨stopping, hr, fun i w hw => ((sound.slots i w hw).of_isOut (out i w hw)).1, slots, live,
    jobs, ?_, ?_, ?_, ?_, ?_⟩
  · intro clean
    have upright (i : Nat) (w : Worker) (hw : p.workers[i]? = some w) : w.fallen? = none := by
      cases fallen : w.fallen? with
      | none => rfl
      | some job =>
        obtain ⟨accepted, dirty⟩ := sound.unclean_of_fallen ⟨w, hw, fallen⟩
        simp [clean job i accepted] at dirty
    refine ⟨fun i w hw => ?_, ?_, fun job i hi => (jobs job i hi).1.trans (clean job i hi)⟩
    · rcases slots i w hw with ⟨status, -⟩ | ⟨-, fallen⟩
      · exact status
      · simp [upright i w hw] at fallen
    · refine UInt64.toNat_inj.1 (live.trans (List.countP_eq_zero.2 fun w hw => ?_))
      obtain ⟨i, hi⟩ := List.mem_iff_getElem?.1 hw
      simp [upright i w hi]
  · intro ready thread ending gated more
    have begun : p.step (.begin thread (.submit ending gated)) =
        p.beginCall thread (.submit ending gated) := if_pos ready
    have next : Reachable config spawner (p.step (.begin thread (.submit ending gated))) := h.step _
    have arrives : (p.step (.begin thread (.submit ending gated))).Submits p.calls.size
        p.jobs.size (.arriving false) := by
      rw [begun]
      exact submits_addCall.2 (.inl ⟨rfl, rfl⟩)
    have late := next.submits_late (sound.stops_step stopping _) arrives more
    refine ⟨late, ?_⟩
    have lodged : ((p.step (.begin thread (.submit ending gated))).run more).Lodged p.calls.size
        p.jobs.size none := by
      rcases late with refused | ⟨arriving, -⟩
      · exact ⟨_, refused, rfl⟩
      · exact ⟨_, arriving, rfl⟩
    exact (next.run more).sound.ledger.jobIs_of_lodged lodged _
  · intro ready thread
    have begun : p.step (.begin thread .reap) = p.addCall thread (.reaping .arriving) :=
      if_pos ready
    rw [begun, step_arriving_reaper (p := p.addCall thread (.reaping .arriving)) hr
      Array.getElem?_push_size rfl]
    simp [putCall, addCall, Array.setIfInBounds, Array.set_push]
  · exact fun k c hc harrives => step_arriving_reaper hr hc harrives
  · exact fun k c hc hreturned => step_returned hc hreturned

/-- What a run shows of the end of a pool, given what was seen of the workers' handles. -/
structure Teardown (p : Pool) (seen : List Handling) : Prop where
  /-- The role is held by one party at a time. -/
  role : ∀ who who' r r', p.standing who = some r → p.standing who' = some r' →
    r.hasRole = true → r'.hasRole = true → who = who'
  /-- The handles are taken once, and the threads are joined by whoever took them, each once. -/
  handles : ∃ who all, all.Nodup ∧ seen <+: .took who all :: all.map (.joined who)
  /-- Nothing is found set or cleared already. -/
  silent : ∀ entry ∈ p.log, entry.2.level ≠ .warn
  stops : p.control.isStopping = true → ∀ a, (p.step a).control.isStopping = true
  reaped : p.control.isReaped = true → ∀ a, (p.step a).control.isReaped = true
  /-- When a call to reap has returned, every thread that was started has been joined. -/
  returned : p.ReapReturned → p.TornDown ∧ ∃ who all, all.Nodup ∧ (∀ i, i ∈ all ↔ p.IsBorn i) ∧
    seen = .took who all :: all.map (.joined who)

/-- Every run ends a pool like this, whoever calls for it, and when. -/
theorem teardown_run (config : Config)
    (spawner : Nat → Except StartFailure (Option Payload.Inert)) (actions : List Action) :
    Teardown ((create config spawner).run actions)
      ((create config spawner).seen handling actions) := by
  have reached : Reachable config spawner ((create config spawner).run actions) :=
    Reachable.start.run actions
  have sound := reached.sound
  have custody := custody_run config spawner actions
  set p := (create config spawner).run actions
  refine ⟨fun who who' r r' => sound.role_unique, ?_, ?_, fun hs a => sound.stops_step hs a,
    fun hr a => sound.reaped_step hr a, ?_⟩
  · generalize (create config spawner).seen handling actions = events at custody
    cases custody with
    | gathering => exact ⟨.maker, [], .nil, List.nil_prefix⟩
    | taken who done left handles nodup =>
      refine ⟨who, done ++ left, nodup, ?_⟩
      rw [List.map_append, ← List.cons_append]
      exact List.prefix_append _ _
  · intro entry hentry
    cases hline : entry.2 with
    | mk level text =>
      have routine := reached.routine entry hentry
      rw [hline] at routine
      generalize hsame : (⟨level, text⟩ : Log.Line) = line at routine
      cases routine <;> cases hsame <;> simp [Log.Line.debug, Log.Line.error]
  · intro returned
    have reaped := reached.reaped_of_returned returned
    refine ⟨reached.tornDown reaped, ?_⟩
    generalize (create config spawner).seen handling actions = events at custody
    cases custody with
    | gathering unreaped => simp [reaped] at unreaped
    | taken who done left handles nodup born finished joins =>
      obtain rfl : left = [] := by rwa [Joins, if_pos reaped] at joins
      rw [List.append_nil] at nodup born ⊢
      exact ⟨who, done, nodup, fun i => (born i).symm, rfl⟩

/-- A reaper has asked for a stop when another one overtakes him and does all of the work.  He
wins the role then, finds that it has been done, and gives it back. -/
def overtaken : List Action :=
  making ++ reaping 0 2 ++ List.replicate 4 (.worker 0) ++ List.replicate 4 (.worker 1) ++
    reaping 1 19 ++ List.replicate 4 (.call 0)

/-- The second reaper joins both threads, and then both have returned. -/
theorem teardown_of_overtaken :
    ((create pair steady).seen handling overtaken =
        [.took (.caller 1) [0, 1], .joined (.caller 1) 0, .joined (.caller 1) 1] ∧
      ((create pair steady).run overtaken).calls.map (·.activity) =
        #[.reaping .returned, .reaping .returned]) ∧
    Teardown ((create pair steady).run overtaken)
      ((create pair steady).seen handling overtaken) :=
  ⟨by decide +kernel, teardown_run pair steady overtaken⟩

/-- The payload of a job takes the first worker down, and then the pool is stopped. -/
def forsaken : List Action :=
  making ++ .begin .main (.submit (.error (.bomb .other)) false) :: List.replicate 5 (.call 0) ++
    List.replicate 12 (.worker 0) ++ reaping 1 9 ++ List.replicate 5 (.worker 1) ++
    List.replicate 11 (.call 1)

/-- **A reaped pool need not be empty.**  The call to reap has returned and every thread was joined;
one slot is still marked as running its job, and so still counted, and the job is not completed. -/
theorem exists_forsaken :
    let p := (create pair steady).run forsaken
    p.calls.map (·.activity) = #[.submitting 0 (.accepted 0), .reaping .returned] ∧
      p.control.isReaped = true ∧
      p.workers.map (·.slot.status) = [.runningJob, .notRunning] ∧ p.live.value = 1 ∧
      p.installed = [(0, 0)] ∧ p.isCompleted 0 = false := by
  decide +kernel

end Interlock.Pool
