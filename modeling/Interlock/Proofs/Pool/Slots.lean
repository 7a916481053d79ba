import Interlock.Proofs.Pool.Steps

/-!
# Slots, and the making of a pool

The moves keep the slots (`Slots.move`), what the maker of the pool knows (`Making.move`), and the
order of things: no call before the pool is made, no stop before its maker is through
(`Ready.move`).
-/

namespace Interlock.Pool

open scoped List

variable {p q : Pool} {log : Array (Thread × Log.Line)}

/-! ## Notified workers -/

section Notified

variable (w : Worker)

@[simp] theorem slot_notified : w.notified.slot = w.slot := by
  unfold Worker.notified
  split <;> rfl

/-- Whoever is notified looks again if he waits, and stays where he is otherwise. -/
theorem phase_notified :
    w.phase = .waiting ∧ w.notified.phase = .checking ∨
      w.phase ≠ .waiting ∧ w.notified = w := by
  unfold Worker.notified
  split
  · next h => exact .inl ⟨h, rfl⟩
  · next h => exact .inr ⟨h, rfl⟩

theorem notified_ne_waiting : w.notified.phase ≠ .waiting := by
  rcases phase_notified w with ⟨-, h⟩ | ⟨h, same⟩
  · simp [h]
  · rwa [same]

theorem ended?_notified : w.notified.ended? = w.ended? := by
  rcases phase_notified w with ⟨waiting, checking⟩ | ⟨-, same⟩
  · rw [Worker.ended?, Worker.ended?, waiting, checking]
  · rw [same]

theorem notified_eq_unborn : w.notified.phase = .unborn ↔ w.phase = .unborn := by
  rcases phase_notified w with ⟨waiting, checking⟩ | ⟨-, same⟩
  · simp [waiting, checking]
  · rw [same]

end Notified

section Fits

variable {stopping : Bool} {w : Worker} (h : w.Fits stopping)

include h

/-- A signal does not take a worker out of its proper places. -/
theorem fits_notified : w.notified.Fits stopping := by
  rcases phase_notified w with ⟨waiting, checking⟩ | ⟨-, same⟩
  · have allows := h.allows
    rw [waiting] at allows
    refine ⟨?_, by simp [checking], by simp [checking]⟩
    rw [checking, slot_notified]
    exact allows
  · rwa [same]

/-- A worker that fits still does when the pool stops. -/
theorem fits_mono {stopping' : Bool} (hs : stopping = true → stopping' = true) :
    w.Fits stopping' :=
  ⟨h.allows, fun leaves => hs (h.stops leaves), h.ends⟩

/-- A cell is filled exactly while its slot says that the worker is wanted. -/
theorem fits_filled : w.slot.cell.isSome = true ↔ w.slot.status = .wakeRequested := by
  have allows := h.allows
  cases hphase : w.phase with
  | unborn =>
    rw [hphase] at allows
    rcases allows with ⟨status | status, empty⟩ <;> simp [status, empty]
  | announcing | checking | waiting =>
    rw [hphase] at allows
    rcases allows with ⟨status, empty⟩ | ⟨status, full⟩
    · simp [status, empty]
    · simp [status, full]
  | _ =>
    rw [hphase] at allows
    simp [allows.1, allows.2]

end Fits

/-- Between two states no worker was touched, but for being notified. -/
def Undisturbed (p q : Pool) : Prop :=
  ∀ j : Nat, q.workers[j]? = p.workers[j]? ∨ q.workers[j]? = (p.workers[j]?).map Worker.notified

namespace Undisturbed

theorem of_eq (h : q.workers = p.workers) : Undisturbed p q := fun j => .inl (by rw [h])

/-- A signal to one slot disturbs nobody but a worker that waits there. -/
theorem notify (p : Pool) (i : Nat) : Undisturbed p (p.notify i) := by
  intro j
  simp only [Pool.notify, updateWorker]
  by_cases same : i = j
  · subst same
    exact .inr (by simp)
  · exact .inl (List.getElem?_modify_ne _ _ same)

variable (h : Undisturbed p q) {j : Nat}

include h

/-- A worker after an undisturbing move is one from before it, perhaps roused. -/
theorem before {x : Worker} (hx : q.workers[j]? = some x) :
    ∃ w, p.workers[j]? = some w ∧ (x = w ∨ x = w.notified) := by
  rcases h j with same | woken
  · exact ⟨x, same ▸ hx, .inl rfl⟩
  · rw [woken, Option.map_eq_some_iff] at hx
    obtain ⟨w, hw, rfl⟩ := hx
    exact ⟨w, hw, .inr rfl⟩

/-- A worker before an undisturbing move is there after it, perhaps roused. -/
theorem after {w : Worker} (hw : p.workers[j]? = some w) :
    ∃ x, q.workers[j]? = some x ∧ (x = w ∨ x = w.notified) := by
  rcases h j with same | woken
  · exact ⟨w, same ▸ hw, .inl rfl⟩
  · exact ⟨w.notified, by rw [woken, hw]; rfl, .inr rfl⟩

theorem size_eq : q.size = p.size := by
  have bound (l : List Worker) (n : Nat) : n < l.length ↔ (l[n]?).isSome = true := by simp
  have same (n : Nat) : n < q.size ↔ n < p.size := by
    show n < q.workers.length ↔ n < p.workers.length
    rw [bound, bound]
    rcases h n with e | e <;> simp [e]
  have below := same q.size
  have above := same p.size
  omega

end Undisturbed

theorem NudgeMove.undisturbed {n n' : Nudge} (m : NudgeMove p n n' q) : Undisturbed p q := by
  cases m with
  | notify => exact .notify p _
  | look | miss | stay => exact .of_eq rfl

/-- Tearing down disturbs no worker. -/
theorem ReapingMove.undisturbed {r r' : Reaping} (m : ReapingMove p log r r' q) :
    Undisturbed p q := by
  cases m with
  | nudge m => exact m.undisturbed
  | _ => exact .of_eq rfl

/-! ## What the moves leave alone -/

section Frame

variable {i : Nat} {w : Worker}

/-- A worker's move concerns the worker, and the maker of the pool if it waits for the worker. -/
theorem WorkerMove.frame (m : WorkerMove p log i w q) :
    ∃ x, q.workers = p.workers.set i x ∧ w.phase ≠ .unborn ∧ x.phase ≠ .unborn ∧
      (q.creation = p.creation ∨ q.creation = p.creation.roused i) := by
  cases m with
  | attach h | detach h => exact ⟨_, rfl, by simp [h], by simp, .inr rfl⟩
  | work h =>
    refine ⟨_, rfl, by simp [h], ?_, .inl rfl⟩
    simp only [phaseAfter]
    split <;> simp
  | announce h | take h | leave h | wait h | start h | rest h | report h =>
    exact ⟨_, rfl, by simp [h], by simp, .inl rfl⟩

/-- A thread that is over makes no move. -/
theorem WorkerMove.ended?_eq_none (m : WorkerMove p log i w q) : w.ended? = none := by
  cases m with
  | work h hgoes => exact hgoes
  | attach h | announce h | take h | leave h | wait h | start h | rest h | detach h | report h =>
    simp [Worker.ended?, h]

theorem WorkerMove.control_eq (m : WorkerMove p log i w q) : q.control = p.control := by
  cases m <;> rfl

theorem WorkerMove.calls_eq (m : WorkerMove p log i w q) : q.calls = p.calls := by
  cases m <;> rfl

theorem WorkerMove.handles_eq (m : WorkerMove p log i w q) : q.handles = p.handles := by
  cases m <;> rfl

theorem WorkerMove.reaped_eq (m : WorkerMove p log i w q) : q.reaped = p.reaped := by
  cases m <;> rfl

end Frame

section Nudges

variable {n n' : Nudge} (m : NudgeMove p n n' q)

include m

theorem NudgeMove.control_eq : q.control = p.control := by
  cases m <;> rfl

theorem NudgeMove.calls_eq : q.calls = p.calls := by
  cases m <;> rfl

theorem NudgeMove.handles_eq : q.handles = p.handles := by
  cases m <;> rfl

theorem NudgeMove.reaped_eq : q.reaped = p.reaped := by
  cases m <;> rfl

theorem NudgeMove.jobs_eq : q.jobs = p.jobs := by
  cases m <;> rfl

theorem NudgeMove.idle_eq : q.idle = p.idle := by
  cases m <;> rfl

/-- Signalling a slot at most rouses the creator, who may wait for that worker. -/
theorem NudgeMove.creation :
    q.creation = p.creation ∨ ∃ i, q.creation = p.creation.roused i := by
  cases m with
  | @notify i => exact .inr ⟨i, rfl⟩
  | look | miss | stay => exact .inl rfl

end Nudges

section Submissions

variable {job : Nat} {s s' : Submission} (m : SubmissionMove p log job s s' q)

include m

theorem SubmissionMove.control_eq : q.control = p.control := by
  cases m with
  | nudge m => exact m.control_eq
  | _ => rfl

theorem SubmissionMove.calls_eq : q.calls = p.calls := by
  cases m with
  | nudge m => exact m.calls_eq
  | _ => rfl

theorem SubmissionMove.handles_eq : q.handles = p.handles := by
  cases m with
  | nudge m => exact m.handles_eq
  | _ => rfl

theorem SubmissionMove.reaped_eq : q.reaped = p.reaped := by
  cases m with
  | nudge m => exact m.reaped_eq
  | _ => rfl

theorem SubmissionMove.jobs_eq : q.jobs = p.jobs := by
  cases m with
  | nudge m => exact m.jobs_eq
  | _ => rfl

/-- Submitting at most rouses the creator, who may wait for the worker that is taken. -/
theorem SubmissionMove.creation :
    q.creation = p.creation ∨ ∃ i, q.creation = p.creation.roused i := by
  cases m with
  | nudge m => exact m.creation
  | _ => exact .inl rfl

end Submissions

theorem ReapingMove.jobs_eq {r r' : Reaping} (m : ReapingMove p log r r' q) : q.jobs = p.jobs := by
  cases m with
  | nudge m => exact m.jobs_eq
  | _ => rfl

/-- A stop that was requested is not taken back by a teardown. -/
theorem ReapingMove.stops {r r' : Reaping} (m : ReapingMove p log r r' q)
    (h : p.control.isStopping = true) : q.control.isStopping = true := by
  cases m with
  | stop => exact p.control.isStopping_requestStop
  | win | lose => rwa [Control.isStopping_beginReaping]
  | mark => rwa [Control.isStopping_markReaped]
  | cancel | yield =>
    show p.control.yieldReaping.2.isStopping = true
    rwa [Control.isStopping_yieldReaping]
  | nudge m => cases m <;> exact h
  | _ => exact h

/-- A reaper wakes others, but not itself. -/
theorem ReapingMove.own_call {r r' : Reaping} (m : ReapingMove p log r r' q) {k : Nat} {c : Call}
    (hc : p.calls[k]? = some c) (h : c.activity = .reaping r) : q.calls[k]? = some c := by
  cases m with
  | publish =>
    have own : p.notifyReaped.calls[k]? = some c := by
      rw [getElem?_notifyReaped, hc, Option.map_some, Call.roused, h, if_neg (by simp)]
    exact own
  | nudge m => rwa [m.calls_eq]
  | _ => exact hc

/-- Tearing down at most rouses the creator, who may wait for a worker that is signalled. -/
theorem ReapingMove.creation {r r' : Reaping} (m : ReapingMove p log r r' q) :
    q.creation = p.creation ∨ ∃ i, q.creation = p.creation.roused i := by
  cases m with
  | nudge m => exact m.creation
  | _ => exact .inl rfl

/-! ## Slots -/

section Slots

/-- Where no worker is disturbed, all slots still fit. -/
theorem Slots.undisturbed (h : p.Slots) (hu : Undisturbed p q)
    (hs : p.control.isStopping = true → q.control.isStopping = true) : q.Slots := by
  intro j x hx
  obtain ⟨w, hw, e⟩ := hu.before hx
  rcases e with rfl | rfl
  · exact fits_mono (h j _ hw) hs
  · exact fits_mono (fits_notified (h j w hw)) hs

/-- All slots fit when one worker moves to a place where it fits. -/
theorem Slots.put (h : p.Slots) {i : Nat} {w : Worker} (hq : q.workers = p.workers.set i w)
    (hcontrol : q.control = p.control) (hw : w.Fits p.control.isStopping) : q.Slots := by
  intro j x hx
  rw [hcontrol]
  rw [hq] at hx
  rcases getElem?_putWorker hx with ⟨rfl, rfl⟩ | ⟨-, hx⟩
  · exact hw
  · exact h j x hx

/-- The step of a worker keeps all slots fitting. -/
theorem Slots.worker (h : p.Slots) {i : Nat} {w : Worker} (hw : p.workers[i]? = some w)
    (m : WorkerMove p log i w q) : q.Slots := by
  have fits := h i w hw
  have allows := fits.allows
  cases m with
  | attach hphase =>
    rw [hphase] at allows
    exact h.put rfl rfl ⟨.inl ⟨rfl, allows.2⟩, by simp, by simp⟩
  | announce hphase =>
    rw [hphase] at allows
    exact h.put rfl rfl ⟨allows, by simp, by simp⟩
  | take hphase hcell => exact h.put rfl rfl ⟨⟨rfl, rfl⟩, by simp, by simp⟩
  | leave hphase hcell hstop =>
    rw [hphase] at allows
    have sleeps : w.slot.status = .sleeping := by
      rcases allows with ⟨status, -⟩ | ⟨-, full⟩
      · exact status
      · simp [hcell] at full
    exact h.put rfl rfl ⟨⟨sleeps, hcell⟩, fun _ => hstop, by simp⟩
  | wait hphase hcell hstop =>
    rw [hphase] at allows
    exact h.put rfl rfl ⟨allows, by simp, by simp⟩
  | start hphase =>
    rw [hphase] at allows
    exact h.put rfl rfl ⟨⟨rfl, allows.2⟩, by simp, by simp⟩
  | @work job phase e hphase hgoes hjob =>
    rw [hphase] at allows
    refine h.put rfl rfl ?_
    -- the job is over, or it goes on; in either case the worker still counts as running it
    cases phase.next e.ending with
    | done => exact ⟨allows, by simp [phaseAfter], by simp [phaseAfter]⟩
    | _ => exact ⟨allows, by simp [phaseAfter], by simp [phaseAfter]⟩
  | rest hphase =>
    rw [hphase] at allows
    exact h.put rfl rfl ⟨.inl ⟨rfl, allows.2⟩, by simp, by simp⟩
  | detach hphase =>
    rw [hphase] at allows
    exact h.put rfl rfl ⟨⟨rfl, allows.2⟩, by simp, by simp⟩
  | report hphase =>
    rw [hphase] at allows
    refine h.put rfl rfl ⟨allows, by simp, ?_⟩
    intro payload ended
    cases ended
    rfl

/-- A submitter fills the cell of a worker that is asleep, or about to be. -/
theorem Slots.submission (h : p.Slots) {job : Nat} {s s' : Submission}
    (m : SubmissionMove p log job s s' q) : q.Slots := by
  cases m with
  | @install i w hw hstop hs =>
    have fits := h i w hw
    refine h.put rfl rfl ⟨?_, ?_, fits.ends⟩
    · have allows := fits.allows
      have leaving := fits.stops
      cases hphase : w.phase with
      | announcing | checking | waiting => exact .inr ⟨rfl, rfl⟩
      | detaching => simp [hstop, hphase] at leaving
      | _ => simp [hphase, Worker.Phase.Allows, hs] at allows
    · exact fits.stops
  | nudge m => exact h.undisturbed m.undisturbed (by cases m <;> exact id)
  | _ => exact h

theorem Slots.reaping (h : p.Slots) {r r' : Reaping} (m : ReapingMove p log r r' q) : q.Slots :=
  h.undisturbed m.undisturbed m.stops

/-- A step of the creation keeps all slots fitting. -/
theorem Slots.creation (h : p.Slots) (hm : p.Making) (m : CreationMove p log q) : q.Slots := by
  cases m with
  | @prepare i w hcreation hw =>
    have unborn := (hm.unborn_of .notRunning hw (by simp [hcreation, Creation.unborn])).1
    have fits := h i w hw
    have allows := fits.allows
    rw [unborn] at allows
    refine h.put rfl rfl ⟨?_, fits.stops, fits.ends⟩
    rw [unborn]
    exact ⟨.inr rfl, allows.2⟩
  | @spawn i w exit hcreation hw hs =>
    obtain ⟨unborn, status⟩ :=
      hm.unborn_of .starting hw (by simp [hcreation, Creation.unborn])
    have allows := (h i w hw).allows
    rw [unborn] at allows
    exact h.put rfl rfl ⟨⟨status, allows.2⟩, by simp, by simp⟩
  | @undo i w reason hcreation hw =>
    have unborn := (hm.unborn_of .starting hw (by simp [hcreation, Creation.unborn])).1
    have fits := h i w hw
    have allows := fits.allows
    rw [unborn] at allows
    refine h.put rfl rfl ⟨?_, fits.stops, fits.ends⟩
    rw [unborn]
    exact ⟨.inl rfl, allows.2⟩
  | rollBack hcreation m => exact (h.reaping m : Slots _)
  | drop hcreation m => exact (h.reaping m : Slots _)
  | _ => exact h

/-- Every move keeps all slots fitting. -/
theorem Slots.move (h : p.Slots) (hm : p.Making) {a : Action} (m : Move p log a q) : q.Slots := by
  cases m with
  | worker hw m => exact h.worker hw m
  | submission hc hs m => exact (h.submission m : Slots _)
  | reaping hc hs m => exact (h.reaping m : Slots _)
  | nudging hc hs m => exact h.undisturbed m.undisturbed (by cases m <;> exact id)
  | creation m => exact h.creation hm m
  | @begin thread request hr => cases request <;> exact h
  | @rouse i => exact h.undisturbed (.notify p i) id
  | stay | release | rouseReapers => exact h

end Slots

/-! ## The making of the pool -/

section Making

/-- The creation stands properly when one worker moves, if what it says of that worker agrees. -/
theorem Making.put (h : p.Making) {i : Nat} {x : Worker} (hq : q.workers = p.workers.set i x)
    (hx : x.phase = .unborn ∧ q.creation.unborn i = some x.slot.status ∨
      x.phase ≠ .unborn ∧ q.creation.unborn i = none)
    (hu : ∀ j, j ≠ i → q.creation.unborn j = p.creation.unborn j)
    (hc : ∀ j, q.creation.current? = some j → j < p.size)
    (hb : ∀ payload, q.creation ≠ .broken payload) : q.Making := by
  refine ⟨?_, ?_, ?_, hb⟩
  · intro j y hy unborn
    rw [hq] at hy
    rcases getElem?_putWorker hy with ⟨rfl, rfl⟩ | ⟨ne, hy⟩
    · rcases hx with ⟨-, told⟩ | ⟨born, -⟩
      · exact told
      · exact absurd unborn born
    · rw [hu j ne]
      exact h.unborn j y hy unborn
  · intro j y hy born
    rw [hq] at hy
    rcases getElem?_putWorker hy with ⟨rfl, rfl⟩ | ⟨ne, hy⟩
    · rcases hx with ⟨unborn, -⟩ | ⟨-, told⟩
      · exact absurd unborn born
      · exact told
    · rw [hu j ne]
      exact h.born j y hy born
  · intro j hj
    rw [size, hq, List.length_set]
    exact hc j hj

/-- The creation stands properly where no worker is disturbed and it says of all what it said
before. -/
theorem Making.undisturbed (h : p.Making) (hw : Undisturbed p q)
    (hu : ∀ j, j < p.size → q.creation.unborn j = p.creation.unborn j)
    (hc : ∀ j, q.creation.current? = some j → j < p.size)
    (hb : ∀ payload, q.creation ≠ .broken payload) : q.Making := by
  have inside {j : Nat} {w : Worker} (hw : p.workers[j]? = some w) : j < p.size :=
    (List.getElem?_eq_some_iff.1 hw).1
  refine ⟨?_, ?_, ?_, hb⟩
  · intro j x hx unborn
    obtain ⟨w, hw, e⟩ := hw.before hx
    rw [hu j (inside hw)]
    rcases e with rfl | rfl
    · exact h.unborn j _ hw unborn
    · rw [slot_notified]
      exact h.unborn j w hw ((notified_eq_unborn w).1 unborn)
  · intro j x hx born
    obtain ⟨w, hw, e⟩ := hw.before hx
    rw [hu j (inside hw)]
    rcases e with rfl | rfl
    · exact h.born j _ hw born
    · exact h.born j w hw (mt (notified_eq_unborn w).2 born)
  · intro j hj
    rw [hw.size_eq]
    exact hc j hj

/-- The creation stands properly when its creator is roused. -/
theorem Making.roused (h : p.Making) (hw : Undisturbed p q)
    (hq : q.creation = p.creation ∨ ∃ i, q.creation = p.creation.roused i) : q.Making := by
  refine h.undisturbed hw ?_ ?_ ?_
  · rcases hq with e | ⟨i, e⟩ <;> simp [e]
  · rcases hq with e | ⟨i, e⟩ <;> simpa [e] using h.current
  · rcases hq with e | ⟨i, e⟩
    · simpa [e] using h.unbroken
    · intro payload
      rw [e, Creation.roused]
      split
      · simp
      · exact h.unbroken payload

/-- The step of a worker keeps the creation standing properly. -/
theorem Making.worker (h : p.Making) {i : Nat} {w : Worker} (hw : p.workers[i]? = some w)
    (m : WorkerMove p log i w q) : q.Making := by
  obtain ⟨x, hq, born, born', hcreation⟩ := m.frame
  have told := h.born i w hw born
  refine h.put hq (.inr ⟨born', ?_⟩) ?_ ?_ ?_
  · rcases hcreation with e | e <;> simpa [e] using told
  · rcases hcreation with e | e <;> simp [e]
  · rcases hcreation with e | e <;> simpa [e] using h.current
  · rcases hcreation with e | e
    · simpa [e] using h.unbroken
    · intro payload
      rw [e, Creation.roused]
      split
      · simp
      · exact h.unbroken payload

/-- A step of a submission keeps the creation standing properly. -/
theorem Making.submission (h : p.Making) (hslots : p.Slots) {job : Nat} {s s' : Submission}
    (m : SubmissionMove p log job s s' q) : q.Making := by
  cases m with
  | @install i w hw hstop hs =>
    have born : w.phase ≠ .unborn := by
      intro unborn
      have allows := (hslots i w hw).allows
      simp [unborn, Worker.Phase.Allows, hs] at allows
    exact h.put rfl (.inr ⟨born, h.born i w hw born⟩) (fun _ _ => rfl) h.current h.unbroken
  | nudge m => exact h.roused m.undisturbed m.creation
  | _ => exact ⟨h.unborn, h.born, h.current, h.unbroken⟩

/-- A step of the creation leaves it standing properly. -/
theorem Making.creation (h : p.Making) (m : CreationMove p log q) : q.Making := by
  cases m with
  | @prepare i w hcreation hw =>
    have unborn := (h.unborn_of .notRunning hw (by simp [hcreation, Creation.unborn])).1
    refine h.put rfl (.inl ⟨unborn, by simp [Creation.unborn]⟩) ?_ ?_ (by simp)
    · intro j ne
      simp only [hcreation, Creation.unborn]
      grind
    · simpa [hcreation, Creation.current?] using h.current
  | @spawn i w exit hcreation hw hs =>
    refine h.put rfl (.inr ⟨by simp, by simp [Creation.unborn]⟩) ?_ ?_ (by simp)
    · intro j ne
      simp [hcreation, Creation.unborn, ne]
    · simpa [hcreation, Creation.current?] using h.current
  | @refuse i reason hcreation hs =>
    refine h.undisturbed (.of_eq rfl) ?_ ?_ (by simp)
    · simp [hcreation, Creation.unborn]
    · simpa [hcreation, Creation.current?] using h.current
  | @store i hcreation =>
    refine h.undisturbed (.of_eq rfl) ?_ ?_ ?_
    · intro j hj
      simp only [hcreation, Creation.prepareFrom]
      split
      · simp only [Creation.unborn, Nat.succ_le_iff]
      · split <;> simp only [Creation.unborn] <;> grind
    · intro j hj
      simp only [Creation.prepareFrom] at hj
      split at hj
      · simp only [Creation.current?, Option.some.injEq] at hj
        omega
      · split at hj <;> simp [Creation.current?] at hj
    · intro payload
      simp only [Creation.prepareFrom]
      split
      · simp
      · split <;> simp
  | @undo i w reason hcreation hw =>
    have unborn := (h.unborn_of .starting hw (by simp [hcreation, Creation.unborn])).1
    refine h.put rfl (.inl ⟨unborn, by simp [Creation.unborn]⟩) ?_ (by simp [Creation.current?])
      (by simp)
    intro j ne
    simp only [hcreation, Creation.unborn]
    grind
  | @note i reason hcreation =>
    exact h.undisturbed (.of_eq rfl) (by simp [hcreation, Creation.unborn])
      (by simp [Creation.current?]) (by simp)
  | @rollBack i reason r r' q hcreation m =>
    refine h.undisturbed m.undisturbed ?_ ?_ ?_
    · intro j hj
      simp only [hcreation, Creation.afterRollback]
      split <;> simp [Creation.unborn]
    · simp only [Creation.afterRollback]
      split <;> simp [Creation.current?]
    · simp only [Creation.afterRollback]
      split <;> simp
  | @drop i reason r r' q hcreation m =>
    refine h.undisturbed m.undisturbed ?_ ?_ ?_
    · intro j hj
      simp only [hcreation, Creation.afterDrop]
      split <;> simp [Creation.unborn]
    · simp only [Creation.afterDrop]
      split <;> simp [Creation.current?]
    · simp only [Creation.afterDrop]
      split <;> simp
  | @sleep i hcreation hs =>
    exact h.undisturbed (.of_eq rfl) (by simp [hcreation, Creation.unborn])
      (by simp [Creation.current?]) (by simp)
  | @started i hcreation hs =>
    refine h.undisturbed (.of_eq rfl) ?_ ?_ ?_
    · simp only [hcreation, Creation.awaitFrom]
      split <;> simp [Creation.unborn]
    · simp only [Creation.awaitFrom]
      split <;> simp [Creation.current?]
    · simp only [Creation.awaitFrom]
      split <;> simp
  | announce hcreation =>
    exact h.undisturbed (.of_eq rfl) (by simp [hcreation, Creation.unborn])
      (by simp [Creation.current?]) (by simp)

/-- Every move keeps the creation standing properly. -/
theorem Making.move (h : p.Making) (hslots : p.Slots) {a : Action} (m : Move p log a q) :
    q.Making := by
  cases m with
  | worker hw m => exact h.worker hw m
  | submission hc hs m =>
    have kept := h.submission hslots m
    exact ⟨kept.unborn, kept.born, kept.current, kept.unbroken⟩
  | reaping hc hs m =>
    have kept := h.roused m.undisturbed m.creation
    exact ⟨kept.unborn, kept.born, kept.current, kept.unbroken⟩
  | nudging hc hs m =>
    have kept := h.roused m.undisturbed m.creation
    exact ⟨kept.unborn, kept.born, kept.current, kept.unbroken⟩
  | creation m => exact h.creation m
  | @begin thread request hr => cases request <;> exact ⟨h.unborn, h.born, h.current, h.unbroken⟩
  | @rouse i => exact h.roused (.notify p i) (.inr ⟨i, rfl⟩)
  | stay | release | rouseReapers => exact ⟨h.unborn, h.born, h.current, h.unbroken⟩

end Making

/-! ## Before and after the pool is ready -/

section Ready

/-- Rousing the creator does not undo a finished creation. -/
theorem creation_ready (h : p.creation = .ready)
    (hq : q.creation = p.creation ∨ ∃ i, q.creation = p.creation.roused i) :
    q.creation = .ready := by
  rcases hq with e | ⟨i, e⟩
  · rw [e, h]
  · rw [e, h]
    rfl

/-- A pool that was made stays so. -/
theorem Move.creation_ready {a : Action} (m : Move p log a q) (h : p.creation = .ready) :
    q.creation = .ready := by
  cases m with
  | @worker i w q hw m =>
    obtain ⟨-, -, -, -, hq⟩ := m.frame
    exact Pool.creation_ready h (hq.imp id fun e => ⟨i, e⟩)
  | submission hc hs m =>
    cases m with
    | nudge m => exact (Pool.creation_ready h m.creation :)
    | _ => exact h
  | reaping hc hs m => exact (Pool.creation_ready h m.creation :)
  | nudging hc hs m => exact (Pool.creation_ready h m.creation :)
  | creation m => cases m <;> simp_all
  | @begin thread request hr => cases request <;> exact h
  | @rouse i => exact Pool.creation_ready h (.inr ⟨i, rfl⟩)
  | stay | release | rouseReapers => exact h

theorem isSettled_roused (index : Nat) (creation : Creation) :
    (creation.roused index).isSettled = creation.isSettled := by
  unfold Creation.roused
  split
  · next h => rw [h]; rfl
  · rfl

/-- Before the pool is ready there is no call, and nobody but its maker stops it. -/
theorem CreationMove.settled (m : CreationMove p log q)
    (h : p.control.isStopping = true → p.creation.isSettled = true) :
    q.control.isStopping = true → q.creation.isSettled = true := by
  cases m with
  | @rollBack i reason r r' q hcreation m =>
    intro _
    simp only [Creation.afterRollback]
    split <;> rfl
  | @drop i reason r r' q hcreation m =>
    intro _
    simp only [Creation.afterDrop]
    split <;> rfl
  | note hcreation => exact fun _ => rfl
  | prepare hcreation | spawn hcreation | refuse hcreation | store hcreation | undo hcreation
  | sleep hcreation | started hcreation | announce hcreation =>
    intro hstop
    have settled := h hstop
    simp [hcreation, Creation.isSettled] at settled

/-- While the pool is made there are no calls. -/
theorem CreationMove.calls (m : CreationMove p log q) (h : p.calls = #[]) : q.calls = #[] := by
  cases m with
  | rollBack hcreation m | drop hcreation m =>
    cases m with
    | publish => simp [notifyReaped, h]
    | nudge m => cases m <;> exact h
    | _ => exact h
  | _ => exact h

/-- Every move keeps calls to pools that were made, and stops to those whose maker is through. -/
theorem Ready.move (h : p.Ready) {a : Action} (m : Move p log a q) : q.Ready := by
  by_cases ready : p.creation = .ready
  · have still := m.creation_ready ready
    exact ⟨fun _ _ _ => still, fun _ => by rw [still]; rfl⟩
  · have idle : p.calls = #[] := by
      rw [← Array.toList_eq_nil_iff, List.eq_nil_iff_forall_not_mem]
      intro c hc
      obtain ⟨k, hk⟩ := List.mem_iff_getElem?.1 hc
      exact ready (h.called k c (by simpa using hk))
    have quiet (hq : q.calls = #[])
        (hs : q.control.isStopping = true → q.creation.isSettled = true) : q.Ready := by
      refine ⟨fun k c hc => ?_, hs⟩
      simp [hq] at hc
    cases m with
    | worker hw m =>
      obtain ⟨-, -, -, -, hq⟩ := m.frame
      refine quiet (m.calls_eq.trans idle) ?_
      rw [m.control_eq]
      rcases hq with e | e
      · rw [e]
        exact h.settled
      · rw [e, isSettled_roused]
        exact h.settled
    | creation m => exact quiet (m.calls idle) (m.settled h.settled)
    | submission hc | reaping hc | nudging hc => exact absurd (h.called _ _ hc) ready
    | begin hr => exact absurd hr ready
    | stay | release => exact ⟨h.called, h.settled⟩
    | @rouse i =>
      refine quiet idle ?_
      show p.control.isStopping = true → (p.creation.roused i).isSettled = true
      rw [isSettled_roused]
      exact h.settled
    | rouseReapers => exact quiet (by simp [notifyReaped, idle]) h.settled

end Ready

end Interlock.Pool
