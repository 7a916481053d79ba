import Interlock.Proofs.Pool.Run

/-!
# Status, cell, queue and counter agree

Four pieces of the shared state of a pool are kept by different threads in different critical
sections: the status of each worker, its cell, the idle queue and the count of live workers.
`Agreement` says how they go together in every state that a run reaches.  Two consequences are read
off it: the idle queue is never found full, and no move of a worker's status is ever refused.
-/

namespace Interlock

/-- Whether a slot counts as live: a thread is attached to it, and past its start. -/
def Worker.Slot.isLive (s : Worker.Slot) : Bool :=
  match s.status with
  | .notRunning => false
  | .starting => false
  | _ => true

namespace Pool

variable {config : Config} {spawner : Nat → Except StartFailure (Option Payload.Inert)}
  {p q : Pool} {log : Array (Thread × Log.Line)}

/-! ## The number of workers -/

/-- Where no worker is disturbed the slots are the same. -/
theorem Undisturbed.slots_eq (h : Undisturbed p q) :
    q.workers.map (·.slot) = p.workers.map (·.slot) := by
  apply List.ext_getElem?
  intro j
  simp only [List.getElem?_map]
  rcases h j with same | woken
  · rw [same]
  · rw [woken, Option.map_map]
    congr 1
    funext w
    exact slot_notified w

theorem CreationMove.size_eq (m : CreationMove p log q) : q.size = p.size := by
  cases m with
  | prepare | spawn | undo => exact List.length_set
  | rollBack hcreation m | drop hcreation m => exact m.undisturbed.size_eq
  | _ => rfl

theorem SubmissionMove.size_eq {job : Nat} {s s' : Submission}
    (m : SubmissionMove p log job s s' q) : q.size = p.size := by
  cases m with
  | install => exact List.length_set
  | nudge m => exact m.undisturbed.size_eq
  | _ => rfl

/-- The number of workers never changes. -/
theorem Move.size_eq {a : Action} (m : Move p log a q) : q.size = p.size := by
  cases m with
  | worker hw m =>
    obtain ⟨x, hq, -⟩ := m.frame
    rw [size, hq, List.length_set]
    rfl
  | submission hc hs m => exact m.size_eq
  | reaping hc hs m => exact m.undisturbed.size_eq
  | nudging hc hs m => exact m.undisturbed.size_eq
  | creation m => exact m.size_eq
  | @begin thread request hr => cases request <;> rfl
  | @rouse i => exact (Undisturbed.notify p i).size_eq
  | stay | release | rouseReapers => rfl

/-- A pool has as many workers as it was configured for. -/
theorem Reachable.size_eq (h : Reachable config spawner p) (valid : config.validate = .ok ()) :
    p.size = config.workers := by
  refine h.keep (motive := fun p => p.size = config.workers) ?_ ?_
  · rcases create_cases config spawner with ⟨e, made⟩ | ⟨-, made⟩
    · simp [create, valid] at made
    · simp [made, size]
  · intro p q log a _ _ m same
    rw [m.size_eq, same]

/-- A pool never has more workers than the limit, whatever was asked for. -/
theorem Reachable.size_le (h : Reachable config spawner p) : p.size ≤ Limits.workers := by
  refine h.keep (motive := fun p => p.size ≤ Limits.workers) ?_ ?_
  · rcases create_cases config spawner with ⟨e, made⟩ | ⟨valid, made⟩
    · simp [made, size]
    · simpa [made, size] using (workers_of_validate valid).2
  · intro p q log a _ _ m bound
    rwa [m.size_eq]

/-! ## The count of live workers -/

/-- The slots that count as live. -/
def liveSlots (p : Pool) : Nat := (p.workers.map (·.slot)).countP (·.isLive)

theorem liveSlots_le_size (p : Pool) : p.liveSlots ≤ p.size := by
  have bound := List.countP_le_length (p := Worker.Slot.isLive) (l := p.workers.map (·.slot))
  rwa [List.length_map] at bound

/-- Putting a worker into its place changes the number of live slots by the worker's own. -/
theorem liveSlots_put {i : Nat} {w x : Worker} (hw : p.workers[i]? = some w)
    (hq : q.workers = p.workers.set i x) :
    q.liveSlots + w.slot.isLive.toNat = p.liveSlots + x.slot.isLive.toNat := by
  have swap := List.getD_set_perm_cons p.workers i x
  rw [hw, Option.getD_some, ← hq] at swap
  have same := (swap.map (·.slot)).countP_eq (·.isLive)
  rw [List.map_cons, List.map_cons, List.countP_cons, List.countP_cons] at same
  have weight (b : Bool) : (if b = true then 1 else 0) = b.toNat := by cases b <;> rfl
  rwa [weight, weight] at same

/-- The counter of live workers counts the live slots. -/
def Tallied (p : Pool) : Prop := p.live.value = UInt64.ofNat p.liveSlots

theorem Tallied.same (h : p.Tallied) (hlive : q.live = p.live)
    (hslots : q.liveSlots = p.liveSlots) : q.Tallied := by
  rw [Tallied, hlive, hslots]
  exact h

theorem Tallied.undisturbed (h : p.Tallied) (hu : Undisturbed p q) (hlive : q.live = p.live) :
    q.Tallied :=
  h.same hlive (by rw [liveSlots, hu.slots_eq, liveSlots])

/-- The count of live workers stays right when one moves that is no more or less live. -/
theorem Tallied.put (h : p.Tallied) {i : Nat} {w x : Worker} (hw : p.workers[i]? = some w)
    (hq : q.workers = p.workers.set i x) (hlive : q.live = p.live)
    (same : x.slot.isLive = w.slot.isLive) : q.Tallied := by
  have changed := liveSlots_put hw hq
  rw [same] at changed
  exact h.same hlive (Nat.add_right_cancel changed)

/-- The step of a worker keeps the count of live ones right. -/
theorem Sound.tallied_worker (h : p.Sound) (ht : p.Tallied) {i : Nat} {w : Worker}
    (hw : p.workers[i]? = some w) (m : WorkerMove p log i w q) : q.Tallied := by
  have allows := (h.slots i w hw).allows
  cases m with
  | attach hphase =>
    rw [hphase] at allows
    have changed := liveSlots_put (q := p.putWorker i
      { w with slot.status := .sleeping, phase := .announcing }) hw rfl
    simp only [Worker.Slot.isLive, allows.1] at changed
    show p.live.value + 1 = UInt64.ofNat (liveSlots (p.putWorker i _))
    rw [ht, show liveSlots (p.putWorker i _) = p.liveSlots + 1 from changed, UInt64.ofNat_add]
    rfl
  | detach hphase =>
    rw [hphase] at allows
    have changed := liveSlots_put (q := p.putWorker i
      { w with slot.status := .notRunning, phase := .reporting }) hw rfl
    simp only [Worker.Slot.isLive, allows.1] at changed
    show p.live.value - 1 = UInt64.ofNat (liveSlots (p.putWorker i _))
    have fewer : p.liveSlots = liveSlots (p.putWorker i
      { w with slot.status := .notRunning, phase := .reporting }) + 1 := changed.symm
    rw [ht, fewer, UInt64.ofNat_add]
    exact UInt64.add_sub_cancel _ _
  | take hphase hcell =>
    rw [hphase] at allows
    refine ht.put hw rfl rfl ?_
    rcases allows with ⟨status, -⟩ | ⟨status, -⟩ <;> simp [Worker.Slot.isLive, status]
  | start hphase | rest hphase =>
    rw [hphase] at allows
    exact ht.put hw rfl rfl (by simp [Worker.Slot.isLive, allows.1])
  | announce | leave | wait | work | report => exact ht.put hw rfl rfl rfl

/-- Every move keeps the count of live workers right. -/
theorem Sound.tallied_move (h : p.Sound) (ht : p.Tallied) {a : Action} (m : Move p log a q) :
    q.Tallied := by
  have reaping {r r' : Reaping} {q : Pool} (m : ReapingMove p log r r' q) : q.Tallied := by
    refine ht.undisturbed m.undisturbed ?_
    cases m with
    | nudge m => cases m <;> rfl
    | _ => rfl
  cases m with
  | worker hw m => exact h.tallied_worker ht hw m
  | submission hc hs m =>
    cases m with
    | install hw hstop hsleeps =>
      exact ht.put hw rfl rfl (by simp [Worker.Slot.isLive, hsleeps])
    | nudge m => exact ht.undisturbed m.undisturbed (by cases m <;> rfl)
    | _ => exact ht
  | reaping hc hs m => exact (reaping m :)
  | nudging hc hs m => exact ht.undisturbed m.undisturbed (by cases m <;> rfl)
  | creation m =>
    cases m with
    | @prepare i w hcreation hw =>
      have status :=
        (h.making.unborn_of .notRunning hw (by simp [hcreation, Creation.unborn])).2
      exact ht.put hw rfl rfl (by simp [Worker.Slot.isLive, status])
    | @undo i w reason hcreation hw =>
      have status :=
        (h.making.unborn_of .starting hw (by simp [hcreation, Creation.unborn])).2
      exact ht.put hw rfl rfl (by simp [Worker.Slot.isLive, status])
    | spawn hcreation hw => exact ht.put hw rfl rfl rfl
    | rollBack hcreation m | drop hcreation m => exact (reaping m :)
    | _ => exact ht
  | @begin thread request hr => cases request <;> exact ht
  | @rouse i => exact ht.undisturbed (.notify p i) rfl
  | stay | release | rouseReapers => exact ht

/-- In every reachable pool the count of live workers is right, modulo 2^64. -/
theorem Reachable.tallied (h : Reachable config spawner p) : p.Tallied := by
  refine h.keep ?_ ?_
  · rcases create_cases config spawner with ⟨e, made⟩ | ⟨-, made⟩
    · rw [made]
      rfl
    · have idle : (create config spawner).liveSlots = 0 := by
        simp [made, liveSlots, List.countP_replicate, Worker.Slot.isLive]
      rw [Tallied, idle, made]
      rfl
  · intro p q log a h _ m ht
    exact h.tallied_move ht m

/-- The counter does not wrap: it is the number of live slots. -/
theorem Reachable.live_eq (h : Reachable config spawner p) : p.live.value.toNat = p.liveSlots := by
  have bound := Nat.le_trans p.liveSlots_le_size h.size_le
  rw [h.tallied, UInt64.toNat_ofNat']
  exact Nat.mod_eq_of_lt (Nat.lt_of_le_of_lt bound (by decide))

/-! ## Refused moves and full queues -/

private theorem head?_append {a : String} {c : Char} (h : a.toList.head? = some c) (b : String) :
    (a ++ b).toList.head? = some c := by
  rw [String.toList_append, List.head?_append, h]
  rfl

/-- The complaints of failed checks have a first letter of their own. -/
theorem Routine.head?_ne {text : String} (h : Routine (.error text)) :
    text.toList.head? ≠ some 'i' := by
  generalize hline : Log.Line.error text = line at h
  cases h with
  | debug => cases hline
  | unwound rest =>
    have same : text = _ ++ rest := congrArg Log.Line.text hline
    rw [same, head?_append (a := "job panicked on worker ") (c := 'j') (by decide)]
    decide
  | lost rest =>
    have same : text = _ ++ rest := congrArg Log.Line.text hline
    rw [same, head?_append (a := "worker thread panicked: ") (c := 'w') (by decide)]
    decide
  | unstarted rest =>
    have same : text = _ ++ rest := congrArg Log.Line.text hline
    rw [same, head?_append (a := "spawning worker ") (c := 's') (by decide)]
    decide

/-- A refused change of status would not be routine. -/
theorem not_routine_refused (m : Worker.IllegalMove) : ¬ Routine (.error m.message) := by
  intro h
  refine h.head?_ne ?_
  unfold Worker.IllegalMove.message
  iterate 6 apply head?_append
  decide

/-- A dropped index would not be routine. -/
theorem not_routine_dropped (i : Nat) :
    ¬ Routine (.error ("idle queue full, worker " ++ toString i ++ " dropped")) := by
  intro h
  refine h.head?_ne ?_
  iterate 2 apply head?_append
  decide

/-! ## The agreement -/

/-- Until the pool stops, the workers on offer are those that sleep. -/
theorem Sound.mem_offered_iff (h : p.Sound) (running : p.control.isStopping = false) (i : Nat) :
    i ∈ p.idle ++ p.held ↔ p.status? i = some .sleeping := by
  constructor
  · intro hi
    obtain ⟨w, hw, status⟩ := h.offers.sleeps i hi
    rcases status with status | ⟨stops, -⟩
    · simp [status?, hw, status]
    · simp [running] at stops
  · intro hs
    obtain ⟨w, hw, status⟩ := Option.map_eq_some_iff.1 hs
    exact h.offers.complete running i w hw status

/-- A worker that unwound out of its job was thrown out by the payload of the task. -/
theorem Sound.task_of_broken (h : p.Sound) {i job : Nat} {w : Worker} {payload : Payload}
    (hw : p.workers[i]? = some w) (hphase : w.phase = .running job (.broken payload)) :
    ∃ e : Entry, p.jobs[job]? = some e ∧ e.ending = .error (.bomb payload) := by
  have allows := (h.slots i w hw).allows
  rw [hphase] at allows
  have carried : w.carried? = some job := by
    simp [Worker.carried?, Worker.job?, hphase, allows.2]
  obtain ⟨e, he, follows, -⟩ := h.ledger.course i w job hw carried
  rw [Worker.course, hphase] at follows
  exact ⟨e, he, follows⟩

/-- How the statuses, the cells, the idle queue and the count of live workers go together. -/
structure Agreement (config : Config) (p : Pool) : Prop where
  size : config.validate = .ok () → p.size = config.workers
  /-- An index is offered once, in the queue or in the hands of a submitter. -/
  once : (p.idle ++ p.held).Nodup
  inside : ∀ i ∈ p.idle ++ p.held, i < p.size
  /-- A cell is filled exactly while its worker is requested to wake. -/
  filled : ∀ (i : Nat) (w : Worker), p.workers[i]? = some w →
    (w.slot.cell.isSome = true ↔ w.slot.status = .wakeRequested)
  /-- Until the pool stops, the sleeping workers are those on offer. -/
  sleeping : p.control.isStopping = false →
    ∀ i, i ∈ p.idle ++ p.held ↔ p.status? i = some .sleeping
  /-- The counter is exact, so that it does not exceed the number of workers. -/
  live : p.live.value.toNat = p.liveSlots
  bounded : p.live.value.toNat ≤ p.size
  /-- A worker that is about to count down is still counted. -/
  positive : ∀ (i : Nat) (w : Worker), p.workers[i]? = some w → w.phase = .detaching →
    0 < p.live.value.toNat
  /-- Whoever is about to put an index into the queue finds room. -/
  room : ∀ (i : Nat) (w : Worker), p.workers[i]? = some w →
    (w.phase = .attaching ∨ w.phase = .resting) → p.idle.length < p.size
  roomBack : ∀ i ∈ p.held, p.idle.length < p.size
  undropped : ∀ entry ∈ p.log, ∀ i : Nat,
    entry.2 ≠ .error ("idle queue full, worker " ++ toString i ++ " dropped")
  /-- No move of a status was refused, and nobody has unwound from a failed check. -/
  unrefused : ∀ entry ∈ p.log, ∀ m : Worker.IllegalMove, entry.2 ≠ .error m.message
  maker : ∀ payload, p.creation ≠ .broken payload
  submitters : ∀ k job payload, ¬ p.Submits k job (.broken payload)
  exits : ∀ (i : Nat) (w : Worker) (payload : Option Payload), p.workers[i]? = some w →
    w.phase = .ended payload → payload = w.exit.map Subtype.val
  /-- A thread unwinds out of a job only with what dropping the payload of its task throws. -/
  falls : ∀ (i : Nat) (w : Worker) (job : Nat) (payload : Payload), p.workers[i]? = some w →
    w.phase = .running job (.broken payload) →
    ∃ e : Entry, p.jobs[job]? = some e ∧ e.ending = .error (.bomb payload)

/-- Every state of every run is in agreement. -/
theorem Reachable.agreement (h : Reachable config spawner p) : Agreement config p := by
  have sound := h.sound
  have live := h.live_eq
  have counted {i : Nat} {w : Worker} (hw : p.workers[i]? = some w)
      (islive : w.slot.isLive = true) : 0 < p.liveSlots :=
    List.countP_pos_iff.2 ⟨w.slot, List.mem_map_of_mem (List.mem_of_getElem? hw), islive⟩
  refine ⟨fun valid => h.size_eq valid, sound.offers.nodup, fun i hi => sound.offers.lt hi,
    fun i w hw => fits_filled (sound.slots i w hw),
    fun running i => sound.mem_offered_iff running i, live, ?_, ?_, ?_, ?_, ?_, ?_,
    sound.making.unbroken, sound.ledger.sturdy, fun i w payload hw => (sound.slots i w hw).ends _,
    ?_⟩
  · rw [live]
    exact p.liveSlots_le_size
  · intro i w hw leaving
    have allows := (sound.slots i w hw).allows
    rw [leaving] at allows
    rw [live]
    exact counted hw (by simp [Worker.Slot.isLive, allows.1])
  · intro i w hw place
    have allows := (sound.slots i w hw).allows
    refine sound.idle_lt hw fun hi => ?_
    refine sound.offers.not_mem hw ?_ ?_ (List.mem_append_left _ hi)
    · rcases place with place | place <;> rw [place] at allows <;> simp [allows.1]
    · rcases place with place | place <;> rw [place] at allows <;> simp [allows.1]
  · intro i hi
    obtain ⟨w, hw, -⟩ := sound.offers.sleeps i (List.mem_append_right _ hi)
    refine sound.idle_lt hw fun twice => ?_
    exact (List.nodup_append.1 sound.offers.nodup).2.2 i twice i hi rfl
  · intro entry hentry i dropped
    exact not_routine_dropped i (dropped ▸ h.routine entry hentry)
  · intro entry hentry m refused
    exact not_routine_refused m (refused ▸ h.routine entry hentry)
  · intro i w job payload hw fallen
    exact sound.task_of_broken hw fallen

/-- The agreement with the first worker in the hands of a submitter and the second in the queue. -/
theorem agreement_of_held :
    ((create pair steady).run (making ++ submitting 0 2)).held = [0] ∧
      ((create pair steady).run (making ++ submitting 0 2)).idle = [1] ∧
      Agreement pair ((create pair steady).run (making ++ submitting 0 2)) :=
  ⟨by decide, by decide, Reachable.agreement (Reachable.start.run (making ++ submitting 0 2))⟩

end Pool

end Interlock
