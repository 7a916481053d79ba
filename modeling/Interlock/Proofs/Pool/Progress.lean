import Interlock.Proofs.Pool.Remaining

/-!
# The making of a pool comes to an end

At any time before a pool is made there is somebody whose next step reduces what remains to be done:
the worker for which the maker waits, or the maker himself (`Reachable.helps`).  A move that leaves
the count as it is leaves it to the same one to go on (`EarlyMove.remaining`).  So the making ends
if the maker and the workers get turns again and again, whatever else happens in between
(`exists_over`).
-/

namespace Interlock.Pool

variable {config : Config} {spawner : Nat → Except StartFailure (Option Payload.Inert)}
  {p q : Pool} {log : Array (Thread × Log.Line)} {a : Action}

/-! ## Who can go on -/

/-- Whether a worker's thread has come to its end. -/
def hasEnded (p : Pool) (i : Nat) : Bool := ((p.workers[i]?).bind (·.ended?)).isSome

/-- The worker for which the maker of a pool waits: to get past its start, or to end. -/
def blocker? (p : Pool) : Option Nat :=
  match p.creation with
  | .awaiting i => if p.status? i = some .starting then some i else none
  | .asleep i => if p.status? i = some .starting then some i else none
  | .rollingBack _ _ (.joining (i :: _) _) => if p.hasEnded i then none else some i
  | _ => none

/-- The action that gets the making of a pool on. -/
def helper (p : Pool) : Action :=
  match p.blocker? with
  | some i => .worker i
  | none => .creation

theorem Undisturbed.hasEnded_eq (h : Undisturbed p q) (i : Nat) : q.hasEnded i = p.hasEnded i := by
  unfold hasEnded
  rcases h i with same | woken
  · rw [same]
  · rw [woken]
    cases p.workers[i]? with
    | none => rfl
    | some w => exact congrArg Option.isSome (ended?_notified w)

theorem hasEnded_set {i : Nat} {w x : Worker} (hw : p.workers[i]? = some w)
    (hq : q.workers = p.workers.set i x) (same : x.ended? = w.ended?) (j : Nat) :
    q.hasEnded j = p.hasEnded j := by
  by_cases own : i = j
  · subst own
    rw [hasEnded, hasEnded, workers_set_self hw hq, hw, Option.bind_some, Option.bind_some, same]
  · rw [hasEnded, hasEnded, workers_set_of_ne hq own]

theorem blocker?_congr (hs : ∀ i, q.status? i = p.status? i)
    (he : ∀ i, q.hasEnded i = p.hasEnded i)
    (hq : q.creation = p.creation ∨ ∃ i, q.creation = p.creation.roused i) :
    q.blocker? = p.blocker? := by
  unfold blocker?
  simp only [hs, he]
  rcases hq with e | ⟨i, e⟩
  · rw [e]
  · by_cases asleep : p.creation = .asleep i
    · rw [e, Creation.roused, if_pos asleep, asleep]
    · rw [e, Creation.roused, if_neg asleep]

/-- No move before the first call adds to what remains to be done, and one that does not reduce it
leaves it to the same one to go on. -/
theorem EarlyMove.remaining (m : EarlyMove p log a q) (hp : p.Sound)
    (unused : ∀ (i : Nat) (w : Worker), p.workers[i]? = some w → w.IsUnused p.control.isStopping) :
    q.remaining < p.remaining ∨ q.remaining = p.remaining ∧ q.blocker? = p.blocker? := by
  cases m with
  | stay => exact .inr ⟨rfl, rfl⟩
  | @rouse i =>
    have hu := Undisturbed.notify p i
    refine .inr ⟨?_, blocker?_congr hu.status?_eq hu.hasEnded_eq (.inr ⟨i, rfl⟩)⟩
    unfold Pool.remaining
    rw [hu.toil_eq, hu.size_eq, show (p.notify i).creation = p.creation.roused i from rfl,
      Creation.remaining_roused]
    rfl
  | @worker i w q hw m =>
    rcases m.remaining hw (unused i w hw) with less | ⟨hphase, -, rfl⟩
    · exact .inl less
    · refine .inr ⟨?_, blocker?_congr (fun j => ?_) (hasEnded_set hw rfl ?_) (.inl rfl)⟩
      · have toil := toil_put hw { w with phase := .waiting }
        have size_eq : (p.putWorker i { w with phase := .waiting }).size = p.size := List.length_set
        rw [hphase] at toil
        unfold Pool.remaining
        rw [size_eq, Nat.add_right_cancel toil]
        rfl
      · rw [status?_set hw rfl]
        split
        · next same => rw [same, status?, hw]; rfl
        · rfl
      · rw [Worker.ended?, Worker.ended?, hphase]
  | creation m =>
    rcases m.remaining hp with less | rfl | ⟨i, hcreation, hs, rfl⟩
    · exact .inl less
    · exact .inr ⟨rfl, rfl⟩
    · refine .inr ⟨?_, ?_⟩
      · unfold Pool.remaining
        rw [hcreation]
        rfl
      · unfold blocker?
        rw [hcreation]
        rfl

/-! ## Steps that can be made are made -/

theorem nudgeFrom_ne_nudging (size i : Nat) (n : Nudge) :
    Reaping.nudgeFrom size (i + 1) ≠ .nudging i n := by
  unfold Reaping.nudgeFrom
  split
  · intro same
    cases same
  · simp

/-- A reaper that can go on does so, or takes an index off the idle queue. -/
theorem stepReaping_ne {r : Reaping} (can : p.canStepReaping r = true) (who : Thread) :
    (p.stepReaping who r).1 ≠ r ∨ (p.stepReaping who r).2.idle ≠ p.idle := by
  refine not_and_or.1 fun ⟨place, queue⟩ => ?_
  cases r with
  | arriving | claiming | awaiting | rechecking =>
    simp only [stepReaping] at place
    split at place <;> cases place
  | broadcasting =>
    simp only [stepReaping, Reaping.nudgeFrom] at place
    split at place <;> cases place
  | nudging i n =>
    have m := (p.move_nudge n).2
    rcases hn : p.stepNudge n with ⟨n', q⟩
    rw [hn] at m
    simp only [stepReaping, hn] at place
    cases n' with
    | done => exact nudgeFrom_ne_nudging _ _ _ place
    | looking | notifying =>
      cases place
      cases m
  | joining left joined =>
    cases left with
    | nil => cases place
    | cons i left =>
      obtain ⟨payload, ended⟩ := Option.isSome_iff_exists.1 can
      simp only [stepReaping, ended] at place
      cases payload with
      | none => simp at place
      | some payload => cases payload <;> simp [Payload.drop] at place
  | draining joined =>
    cases hidle : p.idle <;> simp [stepReaping, hidle] at place queue
  | asleep | returned | broken => cases can
  | stopping | cancelling | collecting | marking | yielding | publishing | reporting => cases place

/-- The maker of a pool goes on if he can. -/
theorem stepCreation_ne (can : p.canStepCreation = true) : p.stepCreation ≠ p := by
  intro same
  have place : p.stepCreation.creation = p.creation := by rw [same]
  cases hc : p.creation with
  | preparing i | undoing i reason =>
    simp only [stepCreation, hc] at place
    split at place <;> cases place
  | spawning i =>
    simp only [stepCreation, hc] at place
    split at place <;> cases place
  | storing i =>
    simp only [stepCreation, hc, Creation.prepareFrom] at place
    split at place
    · cases place
    · split at place <;> cases place
  | awaiting i =>
    simp only [stepCreation, hc] at place
    split at place
    · cases place
    · unfold Creation.awaitFrom at place
      split at place
      · simp at place
      · cases place
  | rollingBack i reason r | dropping i reason r =>
    have goes := stepReaping_ne (r := r) (by simpa only [canStepCreation, hc] using can) .main
    rcases hr : p.stepReaping .main r with ⟨r', q⟩
    have queue : p.stepCreation.idle = p.idle := by rw [same]
    simp only [stepCreation, hc, hr] at place queue goes
    cases r' with
    | returned => cases place
    | _ =>
      cases place
      exact goes.elim (absurd rfl) (absurd queue)
  | noting | announcing =>
    simp only [stepCreation, hc] at place
    cases place
  | asleep | ready | failed | broken =>
    simp [canStepCreation, hc] at can

/-- Whether the making of a pool has come to its end. -/
def Creation.isOver : Creation → Bool
  | .ready => true
  | .failed _ => true
  | .broken _ => true
  | _ => false

/-- The making of a pool ends with the pool or with an error. -/
theorem Reachable.ready_or_failed (h : Reachable config spawner p)
    (finished : p.creation.isOver = true) :
    p.creation = .ready ∨ ∃ e, p.creation = .failed e := by
  cases hc : p.creation with
  | ready => exact .inl rfl
  | failed e => exact .inr ⟨e, rfl⟩
  | broken payload => exact absurd hc (h.sound.making.unbroken payload)
  | _ =>
    rw [hc] at finished
    cases finished

/-- A thread that is still to be joined was started. -/
theorem Reachable.born_of_joining (h : Reachable config spawner p) {who : Party} {i n : Nat}
    {left : List Nat} (hr : p.standing who = some (.joining (i :: left) n)) : p.IsBorn i := by
  obtain ⟨actions, rfl⟩ := reachable_iff_run.1 h
  have custody := custody_run config spawner actions
  generalize (create config spawner).seen handling actions = events at custody
  cases custody with
  | gathering unreaped untaken => cases untaken who _ hr
  | taken taker done rest handles nodup born finished joins =>
    obtain ⟨-, ⟨m, same⟩ | ⟨payload, broken⟩ | ⟨-, through⟩, -⟩ := joins.unique h.sound hr rfl
    · cases same
      exact (born i).2 (by simp)
    · cases broken
    · cases through

/-- The worker for which the maker waits can go on, and does not go to sleep. -/
theorem Reachable.blocker_goes (h : Reachable config spawner p) {i : Nat}
    (hb : p.blocker? = some i) :
    ∃ w, p.workers[i]? = some w ∧ w.phase ≠ .unborn ∧ w.phase ≠ .waiting ∧ w.ended? = none ∧
      (w.phase = .checking → p.control.isStopping = true) := by
  have sound := h.sound
  -- a worker that starts, when all threads were started, is about to attach itself
  have attaches {j : Nat} (unborn : p.creation.unborn j = none)
      (hb : (if p.status? j = some .starting then some j else none) = some i) :
      ∃ w, p.workers[i]? = some w ∧ w.phase = .attaching := by
    split at hb
    · next starting =>
      obtain rfl := Option.some.inj hb
      obtain ⟨w, hw, status⟩ := Option.map_eq_some_iff.1 starting
      refine ⟨w, hw, ?_⟩
      have allows := (sound.slots j w hw).allows
      cases hphase : w.phase with
      | attaching => rfl
      | unborn =>
        have told := sound.making.unborn j w hw hphase
        rw [unborn] at told
        cases told
      | _ =>
        rw [hphase, status] at allows
        simp [Worker.Phase.Allows] at allows
    · cases hb
  unfold blocker? at hb
  split at hb
  · next j hcreation =>
    obtain ⟨w, hw, attaching⟩ := attaches (by rw [hcreation]; rfl) hb
    exact ⟨w, hw, by simp [attaching, Worker.ended?]⟩
  · next j hcreation =>
    obtain ⟨w, hw, attaching⟩ := attaches (by rw [hcreation]; rfl) hb
    exact ⟨w, hw, by simp [attaching, Worker.ended?]⟩
  · next index reason j left n hcreation =>
    have hr : p.standing .maker = some (.joining (j :: left) n) := by
      rw [standing, hcreation]
      rfl
    split at hb
    · cases hb
    · next runs =>
      obtain rfl := Option.some.inj hb
      obtain ⟨w, hw, born⟩ := h.born_of_joining hr
      refine ⟨w, hw, born, h.awake_of_passed .maker _ j w hr rfl hw, ?_,
        fun _ => (sound.fits_of_standing hr).1.1⟩
      simpa [hasEnded, hw] using runs
  · cases hb

/-- The maker of a pool can go on unless he waits for a worker. -/
theorem Reachable.canStepCreation (h : Reachable config spawner p)
    (unfinished : p.creation.isOver = false) (free : p.blocker? = none) :
    p.canStepCreation = true := by
  have uncalled := h.sound.uncalled (by rintro ready; simp [ready, Creation.isOver] at unfinished)
  unfold Pool.canStepCreation
  cases hc : p.creation with
  | asleep i =>
    have starting := (h.awaits uncalled).dormant i hc
    simp [blocker?, hc, starting] at free
  | dropping i reason r =>
    obtain rfl := h.eq_arriving_of_dropping hc
    rfl
  | rollingBack i reason r =>
    obtain ⟨goes, unreturned, unbroken⟩ := h.maker_goes uncalled (r := r) (by rw [hc]; rfl)
    cases r with
    | joining left n =>
      cases left with
      | nil => rfl
      | cons j left =>
        show ((p.workers[j]?).bind (·.ended?)).isSome = true
        by_contra running
        simp [blocker?, hc, hasEnded, running] at free
    | asleep => cases goes
    | returned => exact absurd rfl unreturned
    | broken payload => exact absurd rfl (unbroken payload)
    | _ => rfl
  | ready | failed | broken =>
    rw [hc] at unfinished
    cases unfinished
  | _ => rfl

/-- As long as a pool is not made, the step of whoever is to go on reduces what remains to be
done. -/
theorem Reachable.helps (h : Reachable config spawner p)
    (unfinished : p.creation.isOver = false) : (p.step p.helper).remaining < p.remaining := by
  have sound := h.sound
  have uncalled := sound.uncalled (by rintro ready; simp [ready, Creation.isOver] at unfinished)
  unfold helper
  cases hb : p.blocker? with
  | some i =>
    obtain ⟨w, hw, born, awake, running, stops⟩ := h.blocker_goes hb
    have unused := h.unused uncalled i w hw
    have can : p.canStepWorker w = true := by
      have place := unused.2
      unfold canStepWorker
      cases hphase : w.phase <;> simp_all [Worker.ended?]
    obtain ⟨-, m⟩ := sound.moves_worker hw can
    rcases m.remaining hw unused with less | ⟨checking, unstopped, -⟩
    · exact less
    · rw [stops checking] at unstopped
      cases unstopped
  | none =>
    have moved := stepCreation_ne (h.canStepCreation unfinished hb)
    have m := sound.move_creation.2
    show p.stepCreation.remaining < p.remaining
    generalize p.stepCreation.log = log at m
    generalize p.stepCreation = q at m moved
    cases m with
    | stay => exact absurd rfl moved
    | creation m =>
      rcases m.remaining sound with less | same | ⟨i, hcreation, starting, -⟩
      · exact less
      · exact absurd same moved
      · simp [blocker?, hcreation, starting] at hb

/-! ## Everybody gets turns -/

/-- The first actions of an endless schedule. -/
def firstActions (schedule : Nat → Action) (t : Nat) : List Action := (List.range t).map schedule

/-- The maker of a pool and each of its workers get turns again and again, whatever else happens. -/
structure Fair (size : Nat) (schedule : Nat → Action) : Prop where
  maker : ∀ t, ∃ u, t ≤ u ∧ schedule u = .creation
  workers : ∀ i < size, ∀ t, ∃ u, t ≤ u ∧ schedule u = .worker i

theorem run_firstActions_succ (p : Pool) (schedule : Nat → Action) (t : Nat) :
    p.run (firstActions schedule (t + 1)) =
      (p.run (firstActions schedule t)).step (schedule t) := by
  simp [firstActions, List.range_succ, run]

theorem Reachable.exists_turn (h : Reachable config spawner p) {schedule : Nat → Action}
    (fair : Fair p.size schedule) (t : Nat) : ∃ u, t ≤ u ∧ schedule u = p.helper := by
  unfold helper
  cases hb : p.blocker? with
  | none => exact fair.maker t
  | some i =>
    obtain ⟨w, hw, -⟩ := h.blocker_goes hb
    exact fair.workers i (List.getElem?_eq_some_iff.1 hw).1 t

section Endless

variable (config : Config) (spawner : Nat → Except StartFailure (Option Payload.Inert))
  (schedule : Nat → Action)

/-- Until the making of a pool is over or gets on, it is for the same one to go on. -/
theorem blocker?_lasts (t d : Nat) :
    let after t := (create config spawner).run (firstActions schedule t)
    (∃ u, (after u).creation.isOver = true) ∨ (∃ u, (after u).remaining < (after t).remaining) ∨
      (after (t + d)).remaining = (after t).remaining ∧
        (after (t + d)).blocker? = (after t).blocker? := by
  intro after
  have reached (u : Nat) : Reachable config spawner (after u) := Reachable.start.run _
  induction d with
  | zero => exact .inr (.inr ⟨rfl, rfl⟩)
  | succ d ih =>
    rcases ih with finished | less | ⟨count, blocker⟩
    · exact .inl finished
    · exact .inr (.inl less)
    · have m := ((reached (t + d)).sound.move_step (schedule (t + d))).2
      have next : after (t + (d + 1)) = (after (t + d)).step (schedule (t + d)) :=
        run_firstActions_succ _ _ _
      rw [← next] at m
      by_cases finished : (after (t + (d + 1))).creation.isOver = true
      · exact .inl ⟨_, finished⟩
      · have uncalled := (reached (t + (d + 1))).sound.uncalled fun ready =>
          finished (by rw [ready]; rfl)
        obtain ⟨before, m⟩ := m.early uncalled
        rcases m.remaining (reached (t + d)).sound ((reached (t + d)).unused before) with
          less | ⟨same, still⟩
        · exact .inr (.inl ⟨_, less.trans_eq count⟩)
        · exact .inr (.inr ⟨same.trans count, still.trans blocker⟩)

/-- The making of a pool comes to its end if everybody gets turns. -/
theorem exists_over (valid : config.validate = .ok ()) (fair : Fair config.workers schedule) :
    ∃ t, ((create config spawner).run (firstActions schedule t)).creation.isOver = true := by
  let after t := (create config spawner).run (firstActions schedule t)
  have reached (t : Nat) : Reachable config spawner (after t) := Reachable.start.run _
  -- by induction on what remains to be done at a time `t`
  have from_time (n : Nat) : ∀ t, (after t).remaining = n →
      ∃ u, (after u).creation.isOver = true := by
    induction n using Nat.strong_induction_on with
    | _ n ih =>
      intro t count
      have fair : Fair (after t).size schedule := by rwa [(reached t).size_eq valid]
      obtain ⟨u, later, turn⟩ := (reached t).exists_turn fair t
      obtain ⟨d, rfl⟩ := Nat.exists_eq_add_of_le later
      rcases blocker?_lasts config spawner schedule t d with finished | ⟨v, less⟩ | ⟨same, still⟩
      · exact finished
      · exact ih _ (less.trans_eq count) v rfl
      · by_cases finished : (after (t + d)).creation.isOver = true
        · exact ⟨_, finished⟩
        · have helper : (after (t + d)).helper = (after t).helper := by
            unfold Pool.helper
            rw [show (after (t + d)).blocker? = (after t).blocker? from still]
          have less := (reached (t + d)).helps (by simpa using finished)
          rw [helper, ← turn, ← run_firstActions_succ] at less
          exact ih _ (less.trans_eq (same.trans count)) (t + d + 1) rfl
  exact from_time _ 0 rfl

end Endless

end Interlock.Pool
