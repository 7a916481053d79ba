import Interlock.Proofs.Pool.Teardown

/-!
# No worker is left asleep

A worker falls asleep at its slot after it has looked for a job and for a stop, and either may come
in before it is signalled.  While it sleeps with a job in its cell, the submission of that job has
the signal pending (`Reachable.signalled`); while it sleeps and the pool stops, a reaper has
(`Reachable.owed`).
-/

namespace Interlock.Pool

open scoped List

variable {config : Config} {spawner : Nat → Except StartFailure (Option Payload.Inert)}
  {p q : Pool} {log : Array (Thread × Log.Line)}

/-! ## Who falls asleep, and who wakes up -/

section Sleepers

variable {i : Nat} {x : Worker}

/-- A worker that was at most notified sleeps if it did before. -/
theorem Undisturbed.asleep (h : Undisturbed p q) (hx : q.workers[i]? = some x)
    (asleep : x.phase = .waiting) : p.workers[i]? = some x := by
  obtain ⟨w, hw, rfl | rfl⟩ := h.before hx
  · exact hw
  · exact absurd asleep (notified_ne_waiting w)

theorem awake_notify (hx : (p.notify i).workers[i]? = some x) : x.phase ≠ .waiting := by
  have woken : (p.notify i).workers[i]? = (p.workers[i]?).map Worker.notified := by
    simp [notify, updateWorker]
  rw [woken, Option.map_eq_some_iff] at hx
  obtain ⟨w, -, rfl⟩ := hx
  exact notified_ne_waiting w

/-- A worker falls asleep by its own step, with nothing in its cell and no stop asked for. -/
theorem WorkerMove.asleep {j : Nat} {w : Worker} (m : WorkerMove p log j w q)
    (hx : q.workers[i]? = some x) (asleep : x.phase = .waiting) :
    p.workers[i]? = some x ∨ x.slot.cell = none ∧ p.control.isStopping = false := by
  have put {y : Worker} (hq : q.workers = (p.putWorker j y).workers) (awake : y.phase ≠ .waiting) :
      p.workers[i]? = some x := by
    rw [hq] at hx
    rcases getElem?_putWorker hx with ⟨rfl, rfl⟩ | ⟨-, hx⟩
    · exact absurd asleep awake
    · exact hx
  cases m with
  | wait hphase hcell hstop =>
    rcases getElem?_putWorker hx with ⟨rfl, rfl⟩ | ⟨-, hx⟩
    · exact .inr ⟨hcell, hstop⟩
    · exact .inl hx
  | @work job phase e hphase hgoes hjob =>
    refine .inl (put rfl ?_)
    cases phase.next e.ending <;> simp [phaseAfter]
  | attach | announce | take | leave | start | rest | detach | report =>
    exact .inl (put rfl (by simp))

theorem Sound.asleep_creation (h : p.Sound) (m : CreationMove p log q)
    (hx : q.workers[i]? = some x) (asleep : x.phase = .waiting) : p.workers[i]? = some x := by
  -- the maker changes workers whose threads were not started
  have put {j : Nat} {w y : Worker} (hq : q.workers = (p.putWorker j y).workers)
      (awake : y.phase ≠ .waiting) : p.workers[i]? = some x := by
    rw [hq] at hx
    rcases getElem?_putWorker hx with ⟨rfl, rfl⟩ | ⟨-, hx⟩
    · exact absurd asleep awake
    · exact hx
  cases m with
  | @prepare j w hcreation hw =>
    have unborn := (h.making.unborn_of .notRunning hw (by simp [hcreation, Creation.unborn])).1
    exact put (w := w) rfl (by simp [unborn])
  | @undo j w reason hcreation hw =>
    have unborn := (h.making.unborn_of .starting hw (by simp [hcreation, Creation.unborn])).1
    exact put (w := w) rfl (by simp [unborn])
  | @spawn j w exit hcreation hw hs => exact put (w := w) rfl (by simp)
  | rollBack hcreation m | drop hcreation m => exact m.undisturbed.asleep hx asleep
  | refuse | store | note | sleep | started | announce => exact hx

/-- A worker that sleeps has slept before, or has just fallen asleep, or was given a job that its
submitter has yet to signal. -/
theorem Sound.asleep_move (h : p.Sound) {a : Action} (m : Move p log a q)
    (hx : q.workers[i]? = some x) (asleep : x.phase = .waiting) :
    p.workers[i]? = some x ∨ x.slot.cell = none ∧ q.control.isStopping = false ∨
      q.control.isStopping = false ∧
        ∃ k job, x.slot.cell = some job ∧ q.Submits k job (.nudging i (.looking i)) := by
  cases m with
  | stay | release | rouseReapers => exact .inl hx
  | worker hw m =>
    rw [m.control_eq]
    exact (m.asleep hx asleep).imp id .inl
  | @submission k job c s s' q hc hs m =>
    cases m with
    | @install j w hw hstop hsleeps =>
      rcases getElem?_putWorker hx with ⟨rfl, rfl⟩ | ⟨-, hx⟩
      · exact .inr (.inr ⟨hstop, k, job, rfl, _, getElem?_putCall_self (by exact hc), rfl⟩)
      · exact .inl hx
    | nudge m => exact .inl (m.undisturbed.asleep hx asleep)
    | refuse | enter | pop | full | count | retry | giveBack | stay => exact .inl hx
  | reaping hc hs m => exact .inl (m.undisturbed.asleep hx asleep)
  | nudging hc hs m => exact .inl (m.undisturbed.asleep hx asleep)
  | creation m => exact .inl (h.asleep_creation m hx asleep)
  | @begin thread request hr => cases request <;> exact .inl hx
  | @rouse j => exact .inl ((Undisturbed.notify p j).asleep hx asleep)

theorem Slots.attached (h : p.Slots) (hx : p.workers[i]? = some x) (asleep : x.phase = .waiting) :
    p.isAttached i = true := by
  have allows := (h i x hx).allows
  rw [asleep] at allows
  rcases allows with ⟨status, -⟩ | ⟨status, -⟩ <;>
    simp [isAttached, hx, Worker.Slot.isAttached, status, Worker.Status.isAttached]

end Sleepers

/-! ## Pending signals -/

/-- The slot that is still to be signalled. -/
def Nudge.pending? : Nudge → Option Nat
  | .looking i => some i
  | .notifying i => some i
  | .done _ => none

section Pending

variable {i k job : Nat}

/-- A pending signal stays pending, until the worker at the slot has been woken. -/
theorem NudgeMove.pending {n n' : Nudge} (m : NudgeMove p n n' q) (hn : n.pending? = some i) :
    n'.pending? = some i ∨ p.isAttached i = false ∨
      ∀ x, q.workers[i]? = some x → x.phase ≠ .waiting := by
  cases m with
  | look hattached => exact .inl hn
  | miss hmissing =>
    cases hn
    exact .inr (.inl hmissing)
  | notify =>
    cases hn
    exact .inr (.inr fun x hx => awake_notify hx)
  | stay => cases hn

/-- A submission that has yet to signal a slot in which it has installed its job. -/
def Signals (p : Pool) (k job i : Nat) : Prop :=
  ∃ n, p.Submits k job (.nudging i n) ∧ n.pending? = some i

theorem Move.signals {a : Action} (m : Move p log a q) (h : p.Signals k job i) :
    q.Signals k job i ∨ p.isAttached i = false ∨
      ∀ x, q.workers[i]? = some x → x.phase ≠ .waiting := by
  obtain ⟨n, hn, pending⟩ := h
  by_cases own : a = .call k
  · subst own
    rcases m.submits_own hn with rfl | ⟨s', q', m', after, same⟩
    · exact .inl ⟨n, hn, pending⟩
    · cases m' with
      | @nudge _ _ n' _ m' =>
        rw [same]
        refine (m'.pending pending).imp (fun pending' => ?_) id
        cases n' with
        | looking | notifying => exact ⟨_, after, pending'⟩
        | done => cases pending'
      | stay finished => cases finished
  · exact .inl ⟨n, m.submits_other own hn, pending⟩

/-- While a worker sleeps with a job in its cell, the submission of that job has yet to signal. -/
theorem Reachable.signalled (h : Reachable config spawner p) :
    ∀ (i : Nat) (x : Worker) (job : Nat), p.workers[i]? = some x → x.phase = .waiting →
      x.slot.cell = some job → ∃ k, p.Signals k job i := by
  refine h.keep (motive := fun p => ∀ (i : Nat) (x : Worker) (job : Nat),
    p.workers[i]? = some x → x.phase = .waiting → x.slot.cell = some job →
      ∃ k, p.Signals k job i) ?_ ?_
  · intro i x job hx asleep
    rcases create_cases config spawner with ⟨e, made⟩ | ⟨-, made⟩
    · simp [made] at hx
    · rw [made] at hx
      rw [List.eq_of_mem_replicate (List.mem_of_getElem? hx)] at asleep
      cases asleep
  · intro p q log a sound _ m ih i x job hx asleep hcell
    rcases sound.asleep_move m hx asleep with before | ⟨empty, -⟩ | ⟨-, k, job', hcell', hs⟩
    · obtain ⟨k, hk⟩ := ih i x job before asleep hcell
      rcases m.signals hk with still | missing | awake
      · exact ⟨k, still⟩
      · rw [sound.slots.attached before asleep] at missing
        cases missing
      · exact absurd asleep (awake x hx)
    · rw [empty] at hcell
      cases hcell
    · obtain rfl : job' = job := Option.some.inj (hcell'.symm.trans hcell)
      exact ⟨k, _, hs, rfl⟩

end Pending

/-! ## Reapers that have yet to signal -/

/-- A reaper that has yet to signal a slot: it holds the role and has not come so far, or it finds
the role free. -/
def Reaping.Owes (control : Control) (i : Nat) : Reaping → Prop
  | .claiming => control.isReaping = false
  | .rechecking => control.isReaped = false
  | .broadcasting => True
  | .nudging m n => m < i ∨ m = i ∧ n.pending? = some i
  | _ => False

/-- Whether a reaper has signalled a slot, and has not said yet that the workers are joined. -/
def Reaping.hasPassed (i : Nat) : Reaping → Bool
  | .nudging m _ => i < m
  | .collecting => true
  | .joining .. => true
  | .draining _ => true
  | .marking _ => true
  | .broken _ => true
  | _ => false

section Passed

variable {i : Nat} {r r' : Reaping}

theorem hasPassed_roused (i : Nat) (r : Reaping) : r.roused.hasPassed i = r.hasPassed i := by
  cases r <;> rfl

theorem Reaping.Fits.stops_of_hasPassed {control : Control} {handles : List Nat}
    (h : r.Fits control handles) (passed : r.hasPassed i = true) : control.isStopping = true := by
  cases r with
  | nudging | joining | draining | marking | broken => exact h.1.1
  | collecting => exact h.1
  | _ => cases passed

theorem hasPassed_nudgeFrom {size m : Nat} (inside : i < size)
    (passed : (Reaping.nudgeFrom size m).hasPassed i = true) : i < m := by
  unfold Reaping.nudgeFrom at passed
  split at passed
  · simpa [Reaping.hasPassed] using passed
  · omega

/-- A reaper passes a slot by signalling it, unless no thread is attached. -/
theorem ReapingMove.passed (m : ReapingMove p log r r' q) (fits : r.Fits p.control p.handles)
    (inside : i < p.size) (passed : r'.hasPassed i = true) :
    r.hasPassed i = true ∨ p.isAttached i = false ∨
      ∀ x, q.workers[i]? = some x → x.phase ≠ .waiting := by
  cases m with
  | broadcast => exact absurd (hasPassed_nudgeFrom inside passed) (by omega)
  | @nudge j n n' q m =>
    by_cases here : j = i
    · subst here
      have pending : n.pending? = some j := by
        rcases fits.2 with rfl | rfl <;> rfl
      refine .inr ((m.pending pending).resolve_left fun pending' => ?_)
      cases n' with
      | looking | notifying => simp [Reaping.afterNudge, Reaping.hasPassed] at passed
      | done => cases pending'
    · refine .inl (decide_eq_true ?_)
      cases n' with
      | done =>
        have below : i < j + 1 := hasPassed_nudgeFrom inside passed
        omega
      | looking | notifying => simpa [Reaping.afterNudge, Reaping.hasPassed] using passed
  | collect | join | fall | joined | drain | drained => exact .inl rfl
  | stay => exact .inl passed
  | known | go | stop | win | lose | told | sleep | late | first | cancel | mark | yield
  | publish | report => cases passed

end Passed

/-- No worker sleeps at a slot that a reaper has signalled. -/
theorem Reachable.awake_of_passed (h : Reachable config spawner p) :
    ∀ (who : Party) (r : Reaping) (i : Nat) (x : Worker), p.standing who = some r →
      r.hasPassed i = true → p.workers[i]? = some x → x.phase ≠ .waiting := by
  refine h.keep (motive := fun p => ∀ (who : Party) (r : Reaping) (i : Nat) (x : Worker),
    p.standing who = some r → r.hasPassed i = true → p.workers[i]? = some x →
      x.phase ≠ .waiting) ?_ ?_
  · intro who r i x hr
    rcases create_cases config spawner with ⟨e, made⟩ | ⟨-, made⟩ <;> rw [made] at hr <;>
      cases who <;> simp [standing, Creation.reaping?] at hr
  · intro p q log a sound sound' m ih who r' i x hr' passed hx asleep
    -- a reaper is past a slot only when the pool stops, and nobody falls asleep any more then
    have stops := (sound'.fits_of_standing hr').stops_of_hasPassed passed
    have before : p.workers[i]? = some x := by
      rcases sound.asleep_move m hx asleep with before | ⟨-, running⟩ | ⟨running, -⟩
      · exact before
      · rw [stops] at running
        cases running
      · rw [stops] at running
        cases running
    have stays (h : Stays p q who) : False := by
      obtain ⟨r, hr, rfl | rfl⟩ := h.before hr'
      · exact ih who r' i x hr passed before asleep
      · rw [hasPassed_roused] at passed
        exact ih who r i x hr passed before asleep
    cases sound.reaperMove m with
    | quiet hu hcontrol hhandles hstoring others =>
      rcases others who with h | ⟨-, arriving⟩
      · exact stays h
      · obtain rfl : r' = .arriving := Option.some.inj (hr'.symm.trans arriving)
        cases passed
    | spawn j w y hp hq hw hunborn hborn hworkers hcontrol hhandles others =>
      exact stays (others who)
    | store j hp hq hworkers hcontrol hhandles others => exact stays (others who)
    | reap log' who' r r'' s ha hr m' hworkers hcontrol hhandles hstoring own gone others =>
      by_cases same : who = who'
      · subst same
        rcases standing_of_own own gone hr' with rfl | rfl
        · have inside : i < p.size := (List.getElem?_eq_some_iff.1 before).1
          rcases m'.passed (sound.fits_of_standing hr) inside passed with old | missing | awake
          · exact ih who r i x hr old before asleep
          · rw [sound.slots.attached before asleep] at missing
            cases missing
          · exact awake x (by rwa [← hworkers]) asleep
        · cases passed
      · exact stays (others who same)

/-- What a reaper's move leaves a pool that stops, has not been torn down, and has the role free. -/
theorem ReapingMove.claims {r r' : Reaping} (m : ReapingMove p log r r' q)
    (fits : r.Fits p.control p.handles) (hstop : q.control.isStopping = true)
    (hreaped : q.control.isReaped = false) (hreaping : q.control.isReaping = false) :
    r' = .claiming ∨ r ≠ .claiming ∧ p.control.isStopping = true ∧
      p.control.isReaped = false ∧ p.control.isReaping = false := by
  cases m with
  | stop => exact .inl rfl
  | @stay r =>
    by_cases claiming : r = .claiming
    · exact .inl claiming
    · exact .inr ⟨claiming, hstop, hreaped, hreaping⟩
  | win | lose =>
    rw [Control.isReaping_beginReaping] at hreaping
    cases hreaping
  | mark =>
    rw [Control.isReaped_markReaped] at hreaped
    cases hreaped
  | cancel | yield =>
    have reaped := p.control.isReaped_yieldReaping.trans fits
    exact absurd (reaped.symm.trans hreaped) (by simp)
  | nudge m =>
    rw [m.control_eq] at hstop hreaped hreaping
    exact .inr ⟨by simp, hstop, hreaped, hreaping⟩
  | known | go | told | sleep | late | first | broadcast | collect | join | fall | joined | drain
  | drained | publish | report => exact .inr ⟨by simp, hstop, hreaped, hreaping⟩

/-- While the role is free, whoever has asked for a stop is still about to claim it. -/
theorem Reachable.claimed (h : Reachable config spawner p) :
    p.control.isStopping = true → p.control.isReaped = false → p.control.isReaping = false →
      ∃ who, p.standing who = some .claiming := by
  refine h.keep (motive := fun p => p.control.isStopping = true → p.control.isReaped = false →
    p.control.isReaping = false → ∃ who, p.standing who = some .claiming) ?_ ?_
  · intro hstop
    have running : ({} : Control).isStopping = false := by decide
    rcases create_cases config spawner with ⟨e, made⟩ | ⟨-, made⟩ <;> rw [made] at hstop <;>
      exact absurd (running.symm.trans hstop) (by simp)
  · intro p q log a sound _ m ih hstop hreaped hreaping
    have stays (same : q.control = p.control)
        (others : ∀ who, Stays p q who ∨ p.standing who = none) :
        ∃ who, q.standing who = some .claiming := by
      rw [same] at hstop hreaped hreaping
      obtain ⟨who, claiming⟩ := ih hstop hreaped hreaping
      refine ⟨who, ?_⟩
      rcases others who with h | none
      · exact h.standing_eq claiming rfl
      · rw [none] at claiming
        cases claiming
    cases sound.reaperMove m with
    | quiet hu hcontrol hhandles hstoring others =>
      exact stays hcontrol fun who => (others who).imp id And.left
    | spawn j w y hp hq hw hunborn hborn hworkers hcontrol hhandles others
    | store j hp hq hworkers hcontrol hhandles others =>
      exact stays hcontrol fun who => .inl (others who)
    | reap log' who r r' s ha hr m' hworkers hcontrol hhandles hstoring own gone others =>
      rw [hcontrol] at hstop hreaped hreaping
      rcases m'.claims (sound.fits_of_standing hr) hstop hreaped hreaping with
        rfl | ⟨ne, hstop, hreaped, hreaping⟩
      · exact ⟨who, own (by simp)⟩
      · obtain ⟨who', claiming⟩ := ih hstop hreaped hreaping
        refine ⟨who', (others who' ?_).standing_eq claiming rfl⟩
        rintro rfl
        exact ne (Option.some.inj (hr.symm.trans claiming))

/-- While a worker sleeps and the pool stops, some reaper has yet to signal the worker's slot. -/
theorem Reachable.owed (h : Reachable config spawner p) {i : Nat} {x : Worker}
    (hstop : p.control.isStopping = true) (hx : p.workers[i]? = some x)
    (asleep : x.phase = .waiting) :
    ∃ who r, p.standing who = some r ∧ r.Owes p.control i := by
  have sound := h.sound
  have unreaped : p.control.isReaped = false := by
    by_contra reaped
    have out := h.isOut_of_joined (.inl (by simpa using reaped)) hx
    simp [Worker.isOut, asleep] at out
  cases hreaping : p.control.isReaping with
  | false =>
    obtain ⟨who, claiming⟩ := h.claimed hstop unreaped hreaping
    exact ⟨who, .claiming, claiming, hreaping⟩
  | true =>
    have one : 0 < p.reapers.countP (·.hasRole) := by
      rw [sound.roles.role, hreaping]
      exact Nat.one_pos
    obtain ⟨r, hr, holds⟩ := List.countP_pos_iff.1 one
    obtain ⟨who, hr⟩ := mem_reapers.1 hr
    have fits := sound.fits_of_standing hr
    -- the worker still sleeps, so that the holder of the role has not come past its slot
    have ahead : r.hasPassed i = false := by
      by_contra passed
      exact h.awake_of_passed who r i x hr (by simpa using passed) hx asleep
    refine ⟨who, r, hr, ?_⟩
    cases r with
    | rechecking => exact unreaped
    | broadcasting => exact trivial
    | nudging m n =>
      have ahead : ¬ i < m := by simpa [Reaping.hasPassed] using ahead
      rcases Nat.lt_or_ge m i with before | after
      · exact .inl before
      · obtain rfl : m = i := by omega
        exact .inr ⟨rfl, by rcases fits.2 with rfl | rfl <;> rfl⟩
    | cancelling | yielding =>
      rw [show p.control.isReaped = true from fits] at unreaped
      cases unreaped
    | collecting | joining | draining | marking | broken => cases ahead
    | arriving | stopping | claiming | awaiting | asleep | publishing | reporting | returned =>
      cases holds

end Interlock.Pool
