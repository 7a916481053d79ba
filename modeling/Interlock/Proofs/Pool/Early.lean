import Interlock.Proofs.Pool.Leftover
import Interlock.Proofs.Pool.Wakeup

/-!
# Before the first call

Until somebody makes a call of a pool, only its maker and its workers do anything (`EarlyMove`).
No worker has had a job then, none leaves its slot unless the maker undoes his work, and the maker
has nobody to share the reaper's role with.  When the maker is through and the first call is still
to come, all workers sleep (`Reachable.asleep_of_ready`).
-/

namespace Interlock

/-- A worker that has never had a job; it has left its slot only if the pool stops. -/
def Worker.IsUnused (stopping : Bool) (w : Worker) : Prop :=
  w.slot.cell = none ∧
    match w.phase with
    | .unborn | .attaching | .announcing | .checking | .waiting => True
    | .detaching | .reporting | .ended _ => stopping = true
    | .beginning _ | .running .. | .resting => False

namespace Pool

open scoped List

variable {config : Config} {spawner : Nat → Except StartFailure (Option Payload.Inert)}
  {p q : Pool} {log : Array (Thread × Log.Line)} {a : Action}

/-! ## Moves without a call -/

/-- A move of a pool of which nobody has made a call. -/
inductive EarlyMove (p : Pool) (log : Array (Thread × Log.Line)) : Action → Pool → Prop
  | stay {a : Action} {jobs : Array Entry} {calls : Array Call} :
    EarlyMove p log a { p with jobs, calls }
  | rouse {i : Nat} : EarlyMove p log (.rouse i) (p.notify i)
  | worker {i : Nat} {w : Worker} {q : Pool} (hw : p.workers[i]? = some w)
      (m : WorkerMove p log i w q) : EarlyMove p log (.worker i) q
  | creation {q : Pool} (m : CreationMove p log q) : EarlyMove p log .creation q

theorem ReapingMove.calls_size {r r' : Reaping} (m : ReapingMove p log r r' q) :
    q.calls.size = p.calls.size := by
  cases m with
  | publish => simp [notifyReaped]
  | nudge m => rw [m.calls_eq]
  | _ => rfl

/-- A teardown at most rouses the calls of others. -/
theorem ReapingMove.calls {r r' : Reaping} (m : ReapingMove p log r r' q) (k : Nat) :
    q.calls[k]? = p.calls[k]? ∨ q.calls[k]? = (p.calls[k]?).map Call.roused := by
  cases m with
  | publish => exact .inr (getElem?_notifyReaped _ k)
  | nudge m => exact .inl (by rw [m.calls_eq])
  | _ => exact .inl rfl

/-- Calls are not forgotten. -/
theorem Move.calls_size_le (m : Move p log a q) : p.calls.size ≤ q.calls.size := by
  cases m with
  | worker hw m => exact (congrArg Array.size m.calls_eq).ge
  | submission hc hs m => simp [putCall, m.calls_eq]
  | reaping hc hs m => simp [putCall, m.calls_size]
  | nudging hc hs m => simp [putCall, m.calls_eq]
  | creation m =>
    cases m with
    | rollBack hcreation m | drop hcreation m => exact m.calls_size.ge
    | _ => exact Nat.le_refl _
  | @begin thread request ready => cases request <;> simp [beginCall, addCall, addJob]
  | rouseReapers => simp [notifyReaped]
  | stay | release | rouse => exact Nat.le_refl _

/-- New calls are made by those who begin them. -/
theorem Move.calls_size_eq (m : Move p log a q)
    (called : ∀ thread request, a ≠ .begin thread request) : q.calls.size = p.calls.size := by
  cases m with
  | worker hw m => rw [m.calls_eq]
  | submission hc hs m | nudging hc hs m => simp [putCall, m.calls_eq]
  | reaping hc hs m => simp [putCall, m.calls_size]
  | creation m =>
    cases m with
    | rollBack hcreation m | drop hcreation m => exact (m.calls_size :)
    | _ => rfl
  | begin => exact absurd rfl (called _ _)
  | rouseReapers => simp [notifyReaped]
  | stay | release | rouse => rfl

/-- Before the first call only workers and the creation move. -/
theorem Move.early (m : Move p log a q) (uncalled : q.calls = #[]) :
    p.calls = #[] ∧ EarlyMove p log a q := by
  have before : p.calls = #[] := by
    have bound := m.calls_size_le
    rw [uncalled] at bound
    exact Array.size_eq_zero_iff.1 (Nat.le_zero.1 bound)
  refine ⟨before, ?_⟩
  cases m with
  | worker hw m => exact .worker hw m
  | creation m => exact .creation m
  | submission hc | reaping hc | nudging hc => simp [before] at hc
  | @begin thread request ready =>
    cases request <;> simp [beginCall, addCall, addJob] at uncalled
  | rouse => exact .rouse
  | stay | release | rouseReapers => exact .stay

/-- What holds of the pool that is about to be made, and survives every move without a call, holds
until the first call. -/
theorem Reachable.keep_early {motive : Pool → Prop} (h : Reachable config spawner p)
    (uncalled : p.calls = #[]) (start : motive (create config spawner))
    (move : ∀ {p q : Pool} {log : Array (Thread × Log.Line)} {a : Action}, p.Sound → q.Sound →
      p.calls = #[] → EarlyMove p log a q → motive p → motive q) : motive p := by
  refine h.keep (motive := fun p => p.calls = #[] → motive p) (fun _ => start) ?_ uncalled
  intro p q log a sound sound' m ih uncalled
  obtain ⟨before, m⟩ := m.early uncalled
  exact move sound sound' before m (ih before)

/-- Nobody makes a call before the pool is ready. -/
theorem Sound.uncalled (h : p.Sound) (unready : p.creation ≠ .ready) : p.calls = #[] := by
  rw [← Array.toList_eq_nil_iff, List.eq_nil_iff_forall_not_mem]
  intro c hc
  obtain ⟨k, hk⟩ := List.mem_iff_getElem?.1 hc
  exact unready (h.ready.called k c (by simpa using hk))

/-! ## The workers -/

section Workers

variable {stopping : Bool} {w : Worker}

theorem IsUnused.mono {stopping' : Bool} (h : w.IsUnused stopping)
    (hs : stopping = true → stopping' = true) : w.IsUnused stopping' := by
  refine ⟨h.1, ?_⟩
  have place := h.2
  cases hphase : w.phase <;> rw [hphase] at place <;> first | trivial | exact hs place

theorem IsUnused.notified (h : w.IsUnused stopping) : w.notified.IsUnused stopping := by
  rcases phase_notified w with ⟨-, checking⟩ | ⟨-, same⟩
  · exact ⟨by rw [slot_notified, h.1], by rw [checking]; trivial⟩
  · rwa [same]

/-- Where no worker is disturbed, unused ones stay so. -/
theorem Undisturbed.unused (hu : Undisturbed p q)
    (hs : p.control.isStopping = true → q.control.isStopping = true)
    (h : ∀ (i : Nat) (w : Worker), p.workers[i]? = some w → w.IsUnused p.control.isStopping) :
    ∀ (i : Nat) (w : Worker), q.workers[i]? = some w → w.IsUnused q.control.isStopping := by
  intro i x hx
  obtain ⟨w, hw, rfl | rfl⟩ := hu.before hx
  · exact IsUnused.mono (h i x hw) hs
  · exact IsUnused.mono (IsUnused.notified (h i w hw)) hs

/-- A worker that no call has used yet stays so by its own step. -/
theorem WorkerMove.unused {i : Nat} (m : WorkerMove p log i w q)
    (h : w.IsUnused p.control.isStopping) :
    ∃ x, q.workers = p.workers.set i x ∧ x.IsUnused p.control.isStopping := by
  obtain ⟨empty, place⟩ := h
  cases m with
  | attach hphase | announce hphase | wait hphase => exact ⟨_, rfl, empty, trivial⟩
  | leave hphase hcell hstop => exact ⟨_, rfl, empty, hstop⟩
  | detach hphase | report hphase =>
    rw [hphase] at place
    exact ⟨_, rfl, empty, place⟩
  | take hphase hcell =>
    rw [empty] at hcell
    cases hcell
  | start hphase | work hphase | rest hphase =>
    rw [hphase] at place
    exact place.elim

/-- Before the first call no worker has had a job, and none leaves unless the pool stops. -/
theorem Reachable.unused (h : Reachable config spawner p) (uncalled : p.calls = #[]) :
    ∀ (i : Nat) (w : Worker), p.workers[i]? = some w → w.IsUnused p.control.isStopping := by
  refine h.keep_early (motive := fun p => ∀ (i : Nat) (w : Worker), p.workers[i]? = some w →
    w.IsUnused p.control.isStopping) uncalled ?_ ?_
  · intro i w hw
    rcases create_cases config spawner with ⟨e, made⟩ | ⟨-, made⟩
    · simp [made] at hw
    · rw [made] at hw
      rw [List.eq_of_mem_replicate (List.mem_of_getElem? hw)]
      exact ⟨rfl, trivial⟩
  · intro p q log a sound _ _ m ih
    have put {i : Nat} {x : Worker} (hq : q.workers = (p.putWorker i x).workers)
        (hcontrol : q.control = p.control) (hx : x.IsUnused p.control.isStopping) :
        ∀ (j : Nat) (y : Worker), q.workers[j]? = some y → y.IsUnused q.control.isStopping := by
      intro j y hy
      rw [hcontrol]
      rw [hq] at hy
      rcases getElem?_putWorker hy with ⟨-, rfl⟩ | ⟨-, hy⟩
      · exact hx
      · exact ih j y hy
    cases m with
    | stay => exact ih
    | @rouse i => exact (Undisturbed.notify p i).unused id ih
    | worker hw m =>
      obtain ⟨x, hq, hx⟩ := m.unused (ih _ _ hw)
      exact put hq m.control_eq hx
    | creation m =>
      cases m with
      | @prepare i w hcreation hw | @undo i w reason hcreation hw =>
        exact put rfl rfl (by exact ih i w hw)
      | spawn hcreation hw => exact put rfl rfl ⟨(ih _ _ hw).1, trivial⟩
      | rollBack hcreation m | drop hcreation m => exact m.undisturbed.unused m.stops ih
      | refuse | store | note | sleep | started | announce => exact ih

end Workers

/-! ## Workers that start -/

section Starting

variable {i : Nat}

/-- When one worker moves, the status of the others stays. -/
theorem status?_set {j : Nat} {w x : Worker} (hw : p.workers[j]? = some w)
    (hq : q.workers = p.workers.set j x) :
    q.status? i = if i = j then some x.slot.status else p.status? i := by
  split
  · next same =>
    subst same
    rw [status?, workers_set_self hw hq]
    rfl
  · next ne => rw [status?, status?, workers_set_of_ne hq (Ne.symm ne)]

theorem Undisturbed.status?_eq (h : Undisturbed p q) (i : Nat) : q.status? i = p.status? i := by
  have same := congrArg (fun slots : List Worker.Slot => (slots[i]?).map (·.status)) h.slots_eq
  simpa [status?, Function.comp_def] using same

/-- Rousing changes a creation only where it waits. -/
theorem eq_of_roused {j : Nat} {creation made : Creation} (h : creation.roused j = made)
    (hm : made ≠ .awaiting j) : creation = made := by
  unfold Creation.roused at h
  split at h
  · exact absurd h.symm hm
  · exact h

/-- A worker that starts gets past its start by its own step, which wakes the maker of the pool. -/
theorem Sound.starting_worker (h : p.Sound) {j : Nat} {w : Worker} (hw : p.workers[j]? = some w)
    (m : WorkerMove p log j w q) :
    (i ≠ j ∧ q.status? i = p.status? i) ∨ q.status? i ≠ some .starting ∧
      (p.status? i = some .starting → q.creation ≠ .asleep i) := by
  by_cases own : i = j
  · subst own
    have allows := (h.slots i w hw).allows
    have status : p.status? i = some w.slot.status := by rw [status?, hw]; rfl
    have put {q : Pool} {x : Worker} (hq : q.workers = p.workers.set i x)
        (past : x.slot.status ≠ .starting) : q.status? i ≠ some .starting := by
      rw [status?_set hw hq, if_pos rfl]
      exact fun starting => past (Option.some.inj starting)
    rw [status]
    refine .inr ?_
    cases m with
    | attach hphase | detach hphase =>
      refine ⟨put rfl (by simp), fun _ sleeps => ?_⟩
      have asleep : p.creation = .asleep i := eq_of_roused sleeps (by simp)
      simp [asleep, Creation.roused] at sleeps
    | take hphase | start hphase | rest hphase =>
      rw [hphase] at allows
      refine ⟨put rfl (by simp), fun starting => ?_⟩
      simp [Worker.Phase.Allows, Option.some.inj starting] at allows
    | announce hphase | leave hphase | wait hphase | work hphase | report hphase =>
      have past : w.slot.status ≠ .starting := by
        intro starting
        rw [hphase, starting] at allows
        simp [Worker.Phase.Allows] at allows
      exact ⟨put rfl past, fun starting => absurd (Option.some.inj starting) past⟩
  · obtain ⟨x, hq, -⟩ := m.frame
    exact .inl ⟨own, by rw [status?_set hw hq, if_neg own]⟩

/-- Whether the maker of a pool has seen that a worker has got past its start. -/
def Creation.hasAwaited (i : Nat) : Creation → Bool
  | .awaiting j => i < j
  | .asleep j => i < j
  | .announcing => true
  | .ready => true
  | _ => false

@[simp] theorem hasAwaited_roused (i j : Nat) (creation : Creation) :
    (creation.roused j).hasAwaited i = creation.hasAwaited i := by
  unfold Creation.roused
  split
  · next h => rw [h]; rfl
  · rfl

/-- The maker knows which workers are past their start, and sleeps only at the slot of one that is
not. -/
structure Awaits (p : Pool) : Prop where
  past : ∀ i, p.creation.hasAwaited i = true → p.status? i ≠ some .starting
  dormant : ∀ i, p.creation = .asleep i → p.status? i = some .starting

/-- Rousing the maker does not make him forget who is past the start. -/
theorem Awaits.of_roused {j : Nat} (h : p.Awaits) (hs : ∀ i, q.status? i = p.status? i)
    (hq : q.creation = p.creation ∨ q.creation = p.creation.roused j) : q.Awaits := by
  refine ⟨fun i awaited => ?_, fun i sleeps => ?_⟩
  · rw [hs]
    refine h.past i ?_
    rcases hq with e | e <;> simpa [e] using awaited
  · rw [hs]
    refine h.dormant i ?_
    rcases hq with e | e
    · rw [← e, sleeps]
    · exact eq_of_roused (e ▸ sleeps) (by simp)

/-- No worker falls back behind its start. -/
theorem Awaits.worker (h : p.Awaits) (hp : p.Sound) {j : Nat} {w : Worker}
    (hw : p.workers[j]? = some w) (m : WorkerMove p log j w q) : q.Awaits := by
  obtain ⟨-, -, -, -, hq⟩ := m.frame
  refine ⟨fun i awaited => ?_, fun i sleeps => ?_⟩
  · rcases hp.starting_worker (i := i) hw m with ⟨-, same⟩ | ⟨past, -⟩
    · rw [same]
      refine h.past i ?_
      rcases hq with e | e <;> simpa [e] using awaited
    · exact past
  · have before : p.creation = .asleep i := by
      rcases hq with e | e
      · rw [← e, sleeps]
      · exact eq_of_roused (e ▸ sleeps) (by simp)
    rcases hp.starting_worker (i := i) hw m with ⟨-, same⟩ | ⟨-, woken⟩
    · rw [same]
      exact h.dormant i before
    · exact absurd sleeps (woken (h.dormant i before))

/-- The maker moves on only past workers that are past their start. -/
theorem Awaits.creation (h : p.Awaits) (hp : p.Sound) (m : CreationMove p log q) : q.Awaits := by
  have busy {c : Creation} (hc : ∀ i, c.hasAwaited i = false) (hq : q.creation = c)
      (awake : ∀ i, c ≠ .asleep i) : q.Awaits :=
    ⟨fun i awaited => by simp [hq, hc] at awaited,
      fun i sleeps => absurd (hq.symm.trans sleeps) (awake i)⟩
  cases m with
  | prepare | spawn | refuse | undo | note => exact busy (fun _ => rfl) rfl (by simp)
  | @rollBack i reason r r' s hcreation m =>
    cases r' <;> exact busy (fun _ => rfl) rfl (by simp [Creation.afterRollback])
  | @drop i reason r r' s hcreation m =>
    cases r' <;> exact busy (fun _ => rfl) rfl (by simp [Creation.afterDrop])
  | @store i hcreation =>
    have inside : i < p.size := hp.making.current i (by rw [hcreation]; rfl)
    refine busy (c := .prepareFrom p.size (i + 1)) ?_ rfl ?_
    all_goals
      unfold Creation.prepareFrom
      intro j
      split
      · simp [Creation.hasAwaited]
      · rw [if_pos (by omega)]
        simp [Creation.hasAwaited]
  | @sleep i hcreation hs =>
    refine ⟨fun j awaited => h.past j (by rwa [hcreation]), fun j sleeps => ?_⟩
    cases sleeps
    exact hs
  | @started i hcreation hs =>
    refine ⟨fun j awaited starting => ?_, fun j sleeps => ?_⟩
    · have inside : j < p.size := by
        obtain ⟨w, hw, -⟩ := Option.map_eq_some_iff.1 starting
        exact (List.getElem?_eq_some_iff.1 hw).1
      have before : j ≤ i := by
        simp only [Creation.awaitFrom] at awaited
        split at awaited
        · simpa [Creation.hasAwaited, Nat.lt_succ_iff] using awaited
        · omega
      rcases Nat.lt_or_eq_of_le before with before | rfl
      · exact h.past j (by simpa [hcreation, Creation.hasAwaited] using before) starting
      · exact hs starting
    · simp only [Creation.awaitFrom] at sleeps
      split at sleeps <;> cases sleeps
  | announce hcreation =>
    exact ⟨fun j _ => h.past j (by rw [hcreation]; rfl), fun j sleeps => by cases sleeps⟩

/-- Before the first call the maker knows who is past the start. -/
theorem Reachable.awaits (h : Reachable config spawner p) (uncalled : p.calls = #[]) :
    p.Awaits := by
  refine h.keep_early uncalled ?_ ?_
  · rcases create_cases config spawner with ⟨e, made⟩ | ⟨-, made⟩ <;> rw [made] <;>
      exact ⟨by simp [Creation.hasAwaited], by simp⟩
  · intro p q log a sound _ _ m ih
    cases m with
    | stay => exact ih.of_roused (j := 0) (fun _ => rfl) (.inl rfl)
    | @rouse i => exact ih.of_roused (Undisturbed.notify p i).status?_eq (.inr rfl)
    | worker hw m => exact ih.worker sound hw m
    | creation m => exact ih.creation sound m

end Starting

/-! ## The maker -/

/-- A creation is ready after it has announced itself. -/
theorem CreationMove.of_ready (m : CreationMove p log q) (ready : q.creation = .ready) :
    p.creation = .announcing ∧ q.control = p.control := by
  cases m with
  | announce hcreation => exact ⟨hcreation, rfl⟩
  | @rollBack i reason r r' s hcreation m => cases r' <;> cases ready
  | @drop i reason r r' s hcreation m => cases r' <;> cases ready
  | @store i hcreation =>
    simp only [Creation.prepareFrom] at ready
    split at ready
    · cases ready
    · split at ready <;> cases ready
  | @started i hcreation hs =>
    simp only [Creation.awaitFrom] at ready
    split at ready <;> cases ready
  | prepare | spawn | refuse | undo | note | sleep => cases ready

/-- A pool that is ready does not stop before it is called. -/
theorem Reachable.running_of_ready (h : Reachable config spawner p) (uncalled : p.calls = #[])
    (ready : p.creation = .ready) : p.control.isStopping = false := by
  refine h.keep_early (motive := fun p => p.creation = .ready → p.control.isStopping = false)
    uncalled ?_ ?_ ready
  · rcases create_cases config spawner with ⟨e, made⟩ | ⟨-, made⟩ <;> simp [made]
  · intro p q log a sound _ _ m ih ready
    cases m with
    | stay => exact ih ready
    | rouse => exact ih (eq_of_roused ready (by simp))
    | worker hw m =>
      obtain ⟨-, -, -, -, hq⟩ := m.frame
      rw [m.control_eq]
      rcases hq with e | e
      · exact ih (e ▸ ready)
      · exact ih (eq_of_roused (e ▸ ready) (by simp))
    | creation m =>
      obtain ⟨announcing, same⟩ := m.of_ready ready
      rw [same]
      by_contra stops
      have settled := sound.ready.settled (by simpa using stops)
      rw [announcing] at settled
      cases settled

/-- Whether a reaper leaves the work to another one. -/
def Reaping.isWaiting : Reaping → Bool
  | .awaiting => true
  | .asleep => true
  | _ => false

theorem isWaiting_nudgeFrom (size i : Nat) : (Reaping.nudgeFrom size i).isWaiting = false := by
  unfold Reaping.nudgeFrom
  split <;> rfl

/-- A teardown that finds the role free does not come to wait. -/
theorem ReapingMove.isWaiting {r r' : Reaping} (m : ReapingMove p log r r' q)
    (free : r = .claiming → p.control.isReaping = false) (h : r.isWaiting = false) :
    r'.isWaiting = false := by
  cases m with
  | lose taken =>
    rw [free rfl] at taken
    cases taken
  | sleep => cases h
  | broadcast => exact isWaiting_nudgeFrom _ _
  | @nudge i n n' s m =>
    cases n' with
    | done => exact isWaiting_nudgeFrom _ _
    | looking | notifying => rfl
  | stay => exact h
  | _ => rfl

/-- Before the first call the maker has nobody to share the role with. -/
theorem Sound.isReaping_of_maker (h : p.Sound) (uncalled : p.calls = #[]) {r : Reaping}
    (hr : p.creation.reaping? = some r) : p.control.isReaping = r.hasRole := by
  have alone : p.reapers = [r] := by simp [reapers, callers, hr, uncalled]
  have role := h.roles.role
  rw [alone, List.countP_singleton] at role
  cases hflag : p.control.isReaping <;> cases hrole : r.hasRole <;> simp [hflag, hrole] at role ⊢

/-- What a thread leaves behind that has never had a job can be dropped. -/
theorem Sound.inert_of_ended (h : p.Sound) (uncalled : p.calls = #[]) {i : Nat} {w : Worker}
    {payload : Payload} (hw : p.workers[i]? = some w) (ended : w.ended? = some (some payload)) :
    payload.isInert = true := by
  unfold Worker.ended? at ended
  split at ended
  · next load hphase =>
    have bound := (h.slots i w hw).ends load hphase
    rw [Option.some.inj ended] at bound
    obtain ⟨exit, -, rfl⟩ := Option.map_eq_some_iff.1 bound.symm
    exact exit.2
  · next job load hphase =>
    have allows := (h.slots i w hw).allows
    rw [hphase] at allows
    have carried : w.carried? = some job := by
      simp [Worker.carried?, Worker.job?, hphase, allows.2]
    obtain ⟨k, s, ⟨c, hc, -⟩, -⟩ := h.ledger.carried i job ⟨w, hw, carried⟩
    simp [uncalled] at hc
  · cases ended

/-- A reaper unwinds only with what a thread left behind. -/
theorem ReapingMove.unbroken {r r' : Reaping} (m : ReapingMove p log r r' q)
    (inert : ∀ (i : Nat) (w : Worker) (payload : Payload), p.workers[i]? = some w →
      w.ended? = some (some payload) → payload.isInert = true)
    (h : ∀ payload, r ≠ .broken payload) (payload : Payload) : r' ≠ .broken payload := by
  cases m with
  | fall hw ended => cases inert _ _ _ hw ended
  | broadcast =>
    unfold Reaping.nudgeFrom
    split <;> simp
  | @nudge i n n' s m =>
    cases n' with
    | done =>
      simp only [Reaping.afterNudge, Reaping.nudgeFrom]
      split <;> simp
    | looking | notifying => simp [Reaping.afterNudge]
  | stay => exact h payload
  | _ => simp

/-- The maker of a pool undoes his work himself, and goes on as soon as that is done. -/
theorem Reachable.maker_goes (h : Reachable config spawner p) (uncalled : p.calls = #[])
    {r : Reaping} (hr : p.creation.reaping? = some r) :
    r.isWaiting = false ∧ r ≠ .returned ∧ ∀ payload, r ≠ .broken payload := by
  refine h.keep_early (motive := fun p => ∀ r, p.creation.reaping? = some r →
    r.isWaiting = false ∧ r ≠ .returned ∧ ∀ payload, r ≠ .broken payload) uncalled ?_ ?_ r hr
  · rcases create_cases config spawner with ⟨e, made⟩ | ⟨-, made⟩ <;>
      simp [made, Creation.reaping?]
  · intro p q log a sound _ uncalled m ih r hr
    cases m with
    | stay => exact ih r hr
    | rouse => exact ih r ((Creation.reaping?_roused _ _).symm.trans hr)
    | worker hw m =>
      obtain ⟨-, -, -, -, hq⟩ := m.frame
      exact ih r (by rcases hq with e | e <;> simpa [e] using hr)
    | creation m =>
      have next {r r' : Reaping} {s : Pool} (hr : p.creation.reaping? = some r)
          (m : ReapingMove p log r r' s) :
          r'.isWaiting = false ∧ ∀ payload, r' ≠ .broken payload := by
        refine ⟨m.isWaiting ?_ (ih r hr).1, m.unbroken ?_ (ih r hr).2.2⟩
        · rintro rfl
          exact sound.isReaping_of_maker uncalled hr
        · exact fun i w payload hw ended => sound.inert_of_ended uncalled hw ended
      cases m with
      | @rollBack i reason r r' s hcreation m =>
        obtain ⟨waits, unbroken⟩ := next (by rw [hcreation]; rfl) m
        cases r' with
        | returned =>
          cases hr
          exact ⟨rfl, by simp, by simp⟩
        | _ =>
          cases hr
          exact ⟨waits, by simp, unbroken⟩
      | @drop i reason r r' s hcreation m =>
        obtain ⟨waits, unbroken⟩ := next (by rw [hcreation]; rfl) m
        cases r' <;> cases hr <;> exact ⟨waits, by simp, unbroken⟩
      | @store i hcreation =>
        simp only [Creation.prepareFrom] at hr
        split at hr
        · cases hr
        · split at hr <;> cases hr
      | @started i hcreation hs =>
        simp only [Creation.awaitFrom] at hr
        split at hr <;> cases hr
      | note =>
        cases hr
        exact ⟨rfl, by simp, by simp⟩
      | prepare | spawn | refuse | undo | sleep | announce => cases hr

/-- When the maker drops the pool he has nothing left to undo. -/
theorem Reachable.eq_arriving_of_dropping (h : Reachable config spawner p) {i : Nat}
    {reason : StartFailure} {r : Reaping} (dropping : p.creation = .dropping i reason r) :
    r = .arriving := by
  induction h generalizing i reason r with
  | start =>
    rcases create_cases config spawner with ⟨e, made⟩ | ⟨-, made⟩ <;> simp [made] at dropping
  | @step p a h ih =>
    rcases (h.sound.move_step a).2.creation_eq with made | e | ⟨j, e⟩
    · generalize (p.step a).log = log at made
      generalize p.step a = q at dropping made
      cases made with
      | @rollBack i reason r r' s hcreation m =>
        cases r' <;> cases dropping
        rfl
      | @drop i reason r r' s hcreation m =>
        obtain rfl := ih hcreation
        have reaped := h.reaped_of_undone (by rw [hcreation]; rfl)
        cases m with
        | known => cases dropping
        | go unreaped =>
          rw [reaped] at unreaped
          cases unreaped
        | stay =>
          cases dropping
          rfl
      | store =>
        simp only [Creation.prepareFrom] at dropping
        split at dropping
        · cases dropping
        · split at dropping <;> cases dropping
      | started =>
        simp only [Creation.awaitFrom] at dropping
        split at dropping <;> cases dropping
      | prepare | spawn | refuse | undo | note | sleep | announce => cases dropping
    · exact ih (e ▸ dropping)
    · exact ih (eq_of_roused (e ▸ dropping) (by simp))

/-- Dropping the pool changes nothing but how far its making has come. -/
theorem Reachable.step_dropping (h : Reachable config spawner p) {i : Nat} {reason : StartFailure}
    {r : Reaping} (dropping : p.creation = .dropping i reason r) :
    p.step .creation = { p with creation := .failed (.spawn i reason) } := by
  obtain rfl := h.eq_arriving_of_dropping dropping
  have reaped := h.reaped_of_undone (by rw [dropping]; rfl)
  show p.stepCreation = _
  unfold stepCreation
  simp only [dropping, stepReaping, reaped, if_true]

/-! ## When the pool is ready -/

/-- A pool all of whose workers sleep. -/
structure AllAsleep (p : Pool) : Prop where
  slots : ∀ (i : Nat) (w : Worker), p.workers[i]? = some w →
    w.slot.status = .sleeping ∧ w.slot.cell = none
  live : p.live.value.toNat = p.size
  idle : p.idle ~ List.range p.size

/-- When the pool is ready and the first call is still to come, all workers sleep. -/
theorem Reachable.asleep_of_ready (h : Reachable config spawner p) (uncalled : p.calls = #[])
    (ready : p.creation = .ready) : p.AllAsleep := by
  have sound := h.sound
  have running := h.running_of_ready uncalled ready
  have asleep {i : Nat} {w : Worker} (hw : p.workers[i]? = some w) :
      w.slot.status = .sleeping ∧ w.slot.cell = none := by
    obtain ⟨empty, place⟩ := h.unused uncalled i w hw
    have allows := (sound.slots i w hw).allows
    refine ⟨?_, empty⟩
    cases hphase : w.phase with
    | unborn =>
      have told := sound.making.unborn i w hw hphase
      rw [ready] at told
      cases told
    | attaching =>
      rw [hphase] at allows
      have past := (h.awaits uncalled).past i (by rw [ready]; rfl)
      simp [status?, hw, allows.1] at past
    | announcing | checking | waiting =>
      rw [hphase] at allows
      simpa [Worker.Phase.Allows, empty] using allows
    | detaching | reporting | ended | beginning | running | resting =>
      rw [hphase, running] at place
      cases place
  have live : p.liveSlots = (p.workers.map (·.slot)).length := by
    refine List.countP_eq_length.2 fun slot hslot => ?_
    obtain ⟨w, hw, rfl⟩ := List.mem_map.1 hslot
    obtain ⟨i, hi⟩ := List.mem_iff_getElem?.1 hw
    simp [Worker.Slot.isLive, (asleep hi).1]
  have listed (i : Nat) : i ∈ p.idle ↔ i ∈ List.range p.size := by
    have nobody : p.held = [] := by simp [held, uncalled]
    have offered := sound.mem_offered_iff running i
    rw [nobody, List.append_nil] at offered
    rw [offered, List.mem_range]
    constructor
    · intro hs
      obtain ⟨w, hw, -⟩ := Option.map_eq_some_iff.1 hs
      exact (List.getElem?_eq_some_iff.1 hw).1
    · intro inside
      have hw : p.workers[i]? = some p.workers[i] := List.getElem?_eq_getElem inside
      simp [status?, hw, (asleep hw).1]
  refine ⟨fun i w hw => asleep hw, ?_, ?_⟩
  · rw [h.live_eq, live, List.length_map, size]
  · exact (List.perm_ext_iff_of_nodup (List.nodup_append.1 sound.offers.nodup).1
      List.nodup_range).2 listed

end Pool

end Interlock
