import Interlock.Proofs.ReadWrite.Records
import Interlock.Proofs.ReadWrite.Strategies
import Mathlib.Data.UInt

/-!
# What the reader/writer lock counts

The counters are an account of the calls of the raw lock, kept apart for the two modes.  What the
calls of one operation come to is read off the calls alone (`busyOf`, `spinOf`).  An operation has
one stage in a mode at most, so its first attempt in a mode is the first attempt of a stage.

In the middle of an operation the counters run behind its calls by what is still to be counted, and
ahead of them by an attempt that was counted before it is made; the place of the operation tells
which (`Counted`).  That an attempt is the first one in its mode, or is not, is told by the place as
well (`Activity.Follows`).  Every step keeps both (`Activity.Follows.step`, `Counted.step`), so at
every point of every run the counters are exact (`Session.Recorded.counted`), over the operations
that its steps have made since the last `clear` (`Session.recorded`).
-/

namespace Interlock.ReadWrite

/-! ## What calls come to -/

/-- Whether a call is an attempt at once in this mode. -/
def RawCall.tries (mode : Mode) : RawCall → Bool
  | .attempt m timed _ => m == mode && !timed
  | _ => false

/-- Whether the first attempt in this mode was refused, counted. -/
def busyOf (mode : Mode) (made : List RawCall) : Nat :=
  if made.find? (·.mode? == some mode) = some (.attempt mode false false) then 1 else 0

/-- The attempts at once in this mode but for the first, and the slices waited in vain. -/
def spinOf (mode : Mode) (made : List RawCall) : Nat :=
  made.countP (RawCall.tries mode) - 1 + made.count (.attempt mode true false)

/-- No call was an attempt in a mode. -/
def Untried (mode : Mode) (made : List RawCall) : Prop := ∀ c ∈ made, c.mode? ≠ some mode

/-- Some call was a plain attempt in a mode. -/
def Tried (mode : Mode) (made : List RawCall) : Prop := ∃ c ∈ made, c.tries mode = true

section Charges

variable {mode m : Mode} {made later : List RawCall}

theorem mode?_of_tries {c : RawCall} (h : c.tries mode = true) : c.mode? = some mode := by
  cases c with
  | attempt m timed granted =>
    simp only [RawCall.tries, Bool.and_eq_true, beq_iff_eq] at h
    exact congrArg some h.1
  | _ => cases h

theorem Tried.mono (h : Tried mode made) (later : List RawCall) : Tried mode (made ++ later) := by
  obtain ⟨c, hc, tries⟩ := h
  exact ⟨c, List.mem_append_left _ hc, tries⟩

theorem tried_append (made : List RawCall) (mode : Mode) (granted : Bool) :
    Tried mode (made ++ [.attempt mode false granted]) :=
  ⟨_, List.mem_append_right _ List.mem_cons_self, by simp [RawCall.tries]⟩

theorem Untried.append (h : Untried mode made) (h' : Untried mode later) :
    Untried mode (made ++ later) := by
  intro c hc
  exact (List.mem_append.1 hc).elim (h c) (h' c)

theorem Untried.find?_eq_none (h : Untried mode made) :
    made.find? (·.mode? == some mode) = none :=
  List.find?_eq_none.2 fun c hc same => h c hc (beq_iff_eq.1 same)

theorem Untried.busyOf_append (h : Untried mode made) (later : List RawCall) :
    busyOf mode (made ++ later) = busyOf mode later := by
  rw [busyOf, List.find?_append, h.find?_eq_none, Option.none_or, busyOf]

/-- After the first attempt in a mode no later call changes how it went. -/
theorem Tried.busyOf_append (h : Tried mode made) (later : List RawCall) :
    busyOf mode (made ++ later) = busyOf mode made := by
  obtain ⟨c, hc, tries⟩ := h
  have found : (made.find? (·.mode? == some mode)).isSome = true :=
    List.find?_isSome.2 ⟨c, hc, beq_iff_eq.2 (mode?_of_tries tries)⟩
  rw [busyOf, List.find?_append, Option.or_of_isSome found, busyOf]

theorem busyOf_append_of_untried (h : Untried mode later) (made : List RawCall) :
    busyOf mode (made ++ later) = busyOf mode made := by
  rw [busyOf, List.find?_append, h.find?_eq_none, Option.or_none, busyOf]

theorem Untried.busyOf_eq_zero (h : Untried mode made) : busyOf mode made = 0 := by
  rw [busyOf, h.find?_eq_none]
  rfl

theorem Tried.countP_pos (h : Tried mode made) : 0 < made.countP (RawCall.tries mode) :=
  List.countP_pos_iff.2 h

theorem Untried.countP_eq_zero (h : Untried mode made) :
    made.countP (RawCall.tries mode) = 0 :=
  List.countP_eq_zero.2 fun c hc tries => h c hc (mode?_of_tries tries)

theorem Untried.count_eq_zero (h : Untried mode made) (timed granted : Bool) :
    made.count (.attempt mode timed granted) = 0 :=
  List.count_eq_zero.2 fun hc => h _ hc rfl

theorem Untried.spinOf_append (h : Untried mode made) (later : List RawCall) :
    spinOf mode (made ++ later) = spinOf mode later := by
  simp only [spinOf, List.countP_append, List.count_append, h.countP_eq_zero, h.count_eq_zero,
    Nat.zero_add]

theorem spinOf_append_of_untried (h : Untried mode later) (made : List RawCall) :
    spinOf mode (made ++ later) = spinOf mode made := by
  simp only [spinOf, List.countP_append, List.count_append, h.countP_eq_zero, h.count_eq_zero,
    Nat.add_zero]

theorem Untried.spinOf_eq_zero (h : Untried mode made) : spinOf mode made = 0 := by
  simp only [spinOf, h.countP_eq_zero, h.count_eq_zero]

/-- An attempt in one mode is none in the other. -/
theorem untried_attempt (other : m ≠ mode) (timed granted : Bool) :
    Untried mode [.attempt m timed granted] := by
  intro c hc
  rw [List.mem_singleton.1 hc]
  exact fun same => other (Option.some.inj same)

/-- The first attempt in a mode counts if it is refused, as busy. -/
theorem Untried.busyOf_first (h : Untried m made) (mode : Mode) (granted : Bool) :
    busyOf mode (made ++ [.attempt m false granted]) =
      busyOf mode made + if m = mode ∧ granted = false then 1 else 0 := by
  by_cases same : m = mode
  · subst same
    rw [h.busyOf_append, h.busyOf_eq_zero]
    cases granted <;> simp [busyOf, RawCall.mode?]
  · rw [busyOf_append_of_untried (untried_attempt same false granted), if_neg fun h => same h.1]
    rfl

/-- The first attempt in a mode is no further one. -/
theorem Untried.spinOf_first (h : Untried m made) (mode : Mode) (granted : Bool) :
    spinOf mode (made ++ [.attempt m false granted]) = spinOf mode made := by
  by_cases same : m = mode
  · subst same
    rw [h.spinOf_append, h.spinOf_eq_zero]
    cases granted <;> simp [spinOf, RawCall.tries]
  · exact spinOf_append_of_untried (untried_attempt same false granted) made

theorem Tried.busyOf_next (h : Tried m made) (mode : Mode) (timed granted : Bool) :
    busyOf mode (made ++ [.attempt m timed granted]) = busyOf mode made := by
  by_cases same : m = mode
  · subst same
    exact h.busyOf_append _
  · exact busyOf_append_of_untried (untried_attempt same timed granted) made

/-- A further attempt in a mode counts, whatever comes of it. -/
theorem Tried.spinOf_retry (h : Tried m made) (mode : Mode) (granted : Bool) :
    spinOf mode (made ++ [.attempt m false granted]) =
      spinOf mode made + if m = mode then 1 else 0 := by
  by_cases same : m = mode
  · subst same
    have before := h.countP_pos
    simp only [spinOf, List.countP_append, List.count_append, if_true]
    simp [RawCall.tries]
    omega
  · rw [spinOf_append_of_untried (untried_attempt same false granted), if_neg same]
    rfl

/-- A slice counts if it is waited in vain. -/
theorem spinOf_slice (made : List RawCall) (m mode : Mode) (granted : Bool) :
    spinOf mode (made ++ [.attempt m true granted]) =
      spinOf mode made + if m = mode ∧ granted = false then 1 else 0 := by
  simp only [spinOf, List.countP_append, List.count_append, List.countP_singleton,
    List.count_singleton]
  by_cases same : m = mode
  · subst same
    cases granted <;> simp [RawCall.tries, Nat.add_assoc]
  · cases granted <;> simp [RawCall.tries, same]

end Charges

/-! ## Where an attempt is the first one -/

/-- Stages to come, each in a mode of its own that was not tried before. -/
def Fresh (stages : List Stage) (made : List RawCall) : Prop :=
  (stages.map Stage.mode).Nodup ∧ ∀ p ∈ stages, Untried p.mode made

namespace Activity

/-- What an operation has tried where it stands: a stage begins in a mode that was not tried before,
and goes on in one that was. -/
def Follows (made : List RawCall) : Activity → Prop
  | .trying stage rest => Fresh (stage :: rest) made
  | .counting stage rest => Tried stage.mode made ∧ Fresh rest made
  | .noting stage rest => Tried stage.mode made ∧ Fresh rest made
  | .spinning mode _ => Tried mode made
  | .retrying mode _ => Tried mode made
  | .slicing mode => Tried mode made
  | .tallying mode => Tried mode made
  | .waitingOn mode => Tried mode made
  | _ => True

variable {made : List RawCall}

/-- An operation spins in a mode that it tried. -/
theorem follows_spinOn {mode : Mode} (h : Tried mode made) (left : Nat) :
    (spinOn mode left).Follows made := by
  cases left with
  | zero => exact h
  | succ left => exact h

/-- An operation goes on to a stage whose mode it has not tried. -/
theorem follows_proceed {rest : List Stage} (h : Fresh rest made) :
    (proceed rest).Follows made := by
  cases rest with
  | nil => trivial
  | cons stage rest => exact h

/-- An operation begins without having called the raw lock. -/
theorem follows_start (op : Operation) : op.start.Follows [] := by
  cases op with
  | acquire strategy =>
    refine ⟨strategy.nodup_modes, ?_⟩
    intro p _ c hc
    cases hc
  | release => trivial
  | downgrade => trivial

/-- The stages behind the one that is tried stay fresh: they have other modes. -/
theorem fresh_tail {stage : Stage} {rest : List Stage} (h : Fresh (stage :: rest) made)
    (granted : Bool) : Fresh rest (made ++ [.attempt stage.mode false granted]) := by
  obtain ⟨nodup, untried⟩ := h
  rw [List.map_cons, List.nodup_cons] at nodup
  refine ⟨nodup.2, fun p hp => (untried p (List.mem_cons_of_mem _ hp)).append ?_⟩
  apply untried_attempt
  intro same
  exact nodup.1 (same ▸ List.mem_map_of_mem hp)

variable {σ : Type} {s : State σ} {a : Activity}

/-- What an operation called agrees with where it stands, step after step. -/
theorem Follows.step (raw : Raw σ) (me : Nat) (h : a.Follows made) :
    (ReadWrite.step raw me s a).2.Follows (made ++ (a.call? raw s.world).toList) := by
  cases a with
  | trying stage rest =>
    rcases answer : raw.attempt stage.mode false s.world with ⟨_ | _, w⟩
    · simp only [ReadWrite.step, State.attempt, call?, answer, Option.toList_some]
      exact ⟨tried_append made stage.mode false, fresh_tail h false⟩
    · simp only [ReadWrite.step, State.attempt, answer]
      trivial
  | retrying mode left =>
    rcases answer : raw.attempt mode false s.world with ⟨_ | _, w⟩
    · simp only [ReadWrite.step, State.attempt, call?, answer, Option.toList_some]
      exact follows_spinOn (tried_append made mode false) left
    · simp only [ReadWrite.step, State.attempt, answer]
      trivial
  | slicing mode =>
    rcases answer : raw.attempt mode true s.world with ⟨_ | _, w⟩
    · simp only [ReadWrite.step, State.attempt, call?, answer, Option.toList_some]
      exact h.mono _
    · simp only [ReadWrite.step, State.attempt, answer]
      trivial
  | noting stage rest =>
    simp only [ReadWrite.step, call?, Option.toList_none, List.append_nil]
    split
    · exact follows_spinOn h.1 _
    · exact follows_proceed h.2
  | counting stage rest => exact (List.append_nil made).symm ▸ h
  | spinning mode left => exact (List.append_nil made).symm ▸ h
  | tallying mode => exact (List.append_nil made).symm ▸ h
  | waitingOn mode => exact (List.append_nil made).symm ▸ h
  | releasing | checking => simp only [ReadWrite.step]; split <;> trivial
  | leaving => simp only [ReadWrite.step]; split <;> trivial
  | _ => trivial

end Activity

/-! ## What the counters run behind and ahead by -/

/-- What is still to be counted in the middle of an operation, and what was counted early. -/
structure Due where
  /-- A first attempt that was refused and is still to be counted. -/
  busy : Mode → Nat := fun _ => 0
  /-- A slice that was waited in vain and is still to be counted. -/
  spin : Mode → Nat := fun _ => 0
  /-- A further attempt that was counted and is still to be made. -/
  ahead : Mode → Nat := fun _ => 0
  /-- A downgrade that is still to be counted. -/
  downgraded : Nat := 0

namespace Activity

/-- What an operation at this place has still to count, and the attempt that it counted ahead. -/
def due : Activity → Due
  | .counting stage _ => { busy := fun mode => if stage.mode = mode then 1 else 0 }
  | .retrying m _ => { ahead := fun mode => if m = mode then 1 else 0 }
  | .tallying m => { spin := fun mode => if m = mode then 1 else 0 }
  | .countingDowngrade => { downgraded := 1 }
  | _ => {}

@[simp] theorem due_spinOn (mode : Mode) (left : Nat) : (spinOn mode left).due = {} := by
  cases left <;> rfl

@[simp] theorem due_proceed (rest : List Stage) : (proceed rest).due = {} := by
  cases rest <;> rfl

@[simp] theorem due_start (op : Operation) : op.start.due = {} := by
  cases op <;> rfl

end Activity

section Count

variable (l : ReadWrite) (m mode : Mode)

theorem busy_countBusy :
    ((l.countBusy m).tally mode).busy.value =
      (l.tally mode).busy.value + .ofNat (if m = mode then 1 else 0) := by
  cases m <;> cases mode <;> first | rfl | exact (UInt64.add_zero _).symm

theorem busy_countSpin : ((l.countSpin m).tally mode).busy = (l.tally mode).busy := by
  cases m <;> cases mode <;> rfl

theorem spin_countSpin :
    ((l.countSpin m).tally mode).spin.value =
      (l.tally mode).spin.value + .ofNat (if m = mode then 1 else 0) := by
  cases m <;> cases mode <;> first | rfl | exact (UInt64.add_zero _).symm

theorem downgraded_countBusy : (l.countBusy m).downgraded = l.downgraded := by
  cases m <;> rfl

theorem downgraded_countSpin : (l.countSpin m).downgraded = l.downgraded := by
  cases m <;> rfl

end Count

/-- What a step of an operation calls, and what it counts in a lock `l`. -/
inductive Toll (l : ReadWrite) : Activity → Option RawCall → ReadWrite → Activity → Prop where
  | firstRefused {stage : Stage} {rest : List Stage} :
      Toll l (.trying stage rest) (some (.attempt stage.mode false false)) l (.counting stage rest)
  | firstGranted {stage : Stage} {rest : List Stage} :
      Toll l (.trying stage rest) (some (.attempt stage.mode false true)) l (.recording stage.mode)
  | busy {stage : Stage} {rest : List Stage} :
      Toll l (.counting stage rest) none (l.countBusy stage.mode) (.noting stage rest)
  | spin {mode : Mode} {left : Nat} :
      Toll l (.spinning mode left) none (l.countSpin mode) (.retrying mode left)
  | retry {mode : Mode} {left : Nat} {a' : Activity} (granted : Bool) (ha' : a'.due = {}) :
      Toll l (.retrying mode left) (some (.attempt mode false granted)) l a'
  | sliceRefused {mode : Mode} :
      Toll l (.slicing mode) (some (.attempt mode true false)) l (.tallying mode)
  | sliceGranted {mode : Mode} :
      Toll l (.slicing mode) (some (.attempt mode true true)) l (.recording mode)
  | tally {mode : Mode} : Toll l (.tallying mode) none (l.countSpin mode) (.waitingOn mode)
  | lower : Toll l .lowering (some .downgrade) l .countingDowngrade
  | downgrade :
      Toll l .countingDowngrade none { l with downgraded := l.downgraded.increment }
        .notingDowngrade
  /-- Everything else counts nothing, and makes no call that counts. -/
  | quiet {a a' : Activity} {c : Option RawCall} {l' : ReadWrite} (ha : a.due = {})
      (ha' : a'.due = {}) (hc : c = none ∨ c = some .unlockShared ∨ c = some .unlockExclusive)
      (tallies : l'.tally = l.tally) (downgraded : l'.downgraded = l.downgraded) : Toll l a c l' a'

/-- Every step pays one toll. -/
theorem step_toll {σ : Type} (raw : Raw σ) (me : Nat) (s : State σ) (a : Activity) :
    Toll s.lock a (a.call? raw s.world) (step raw me s a).1.lock (step raw me s a).2 := by
  cases a with
  | trying stage rest =>
    rcases answer : raw.attempt stage.mode false s.world with ⟨_ | _, w⟩
    · simp only [step, State.attempt, Activity.call?, answer]
      exact .firstRefused
    · simp only [step, State.attempt, Activity.call?, answer]
      exact .firstGranted
  | counting stage rest => exact .busy
  | noting stage rest =>
    simp only [step, Activity.call?]
    split
    · exact .quiet rfl (Activity.due_spinOn _ _) (.inl rfl) rfl rfl
    · exact .quiet rfl (Activity.due_proceed _) (.inl rfl) rfl rfl
  | spinning mode left => exact .spin
  | retrying mode left =>
    rcases answer : raw.attempt mode false s.world with ⟨_ | _, w⟩
    · simp only [step, State.attempt, Activity.call?, answer]
      exact .retry false (Activity.due_spinOn mode left)
    · simp only [step, State.attempt, Activity.call?, answer]
      exact .retry true rfl
  | slicing mode =>
    rcases answer : raw.attempt mode true s.world with ⟨_ | _, w⟩
    · simp only [step, State.attempt, Activity.call?, answer]
      exact .sliceRefused
    · simp only [step, State.attempt, Activity.call?, answer]
      exact .sliceGranted
  | tallying mode => exact .tally
  | recording mode => cases mode <;> exact .quiet rfl rfl (.inl rfl) rfl rfl
  | releasing | checking =>
    simp only [step, Activity.call?]
    split <;> exact .quiet rfl rfl (.inl rfl) rfl rfl
  | leaving =>
    simp only [step, Activity.call?]
    split <;> exact .quiet rfl rfl (.inl rfl) rfl rfl
  | releasingShared => exact .quiet rfl rfl (.inr (.inl rfl)) rfl rfl
  | releasingExclusive => exact .quiet rfl rfl (.inr (.inr rfl)) rfl rfl
  | lowering => exact .lower
  | countingDowngrade => exact .downgrade
  | _ => exact .quiet rfl rfl (.inl rfl) rfl rfl

namespace Toll

variable {l l' : ReadWrite} {a a' : Activity} {c : Option RawCall} {made : List RawCall}

theorem untried_unlock {mode : Mode}
    (hc : c = none ∨ c = some .unlockShared ∨ c = some .unlockExclusive) :
    Untried mode c.toList := by
  rcases hc with rfl | rfl | rfl <;> simp [Untried, RawCall.mode?]

/-- A step that sees the first attempt in a mode refused has yet to count it. -/
theorem busyOf_eq (toll : Toll l a c l' a') (h : a.Follows made) (mode : Mode) :
    busyOf mode (made ++ c.toList) = busyOf mode made + a'.due.busy mode := by
  cases toll with
  | @firstRefused stage rest | @firstGranted stage rest =>
    rw [Option.toList_some, (h.2 stage List.mem_cons_self).busyOf_first]
    simp [Activity.due]
  | @retry m left _ granted ha' => simp [Tried.busyOf_next h, ha']
  | @sliceRefused m | @sliceGranted m => simp [Tried.busyOf_next h, Activity.due]
  | busy | spin | tally | downgrade => simp [Activity.due]
  | lower =>
    rw [busyOf_append_of_untried (by simp [Untried, RawCall.mode?])]
    rfl
  | quiet _ ha' hc => simp [busyOf_append_of_untried (untried_unlock hc), ha']

/-- A step that attempts again or waits in vain has counted it before or has yet to count it. -/
theorem spinOf_eq (toll : Toll l a c l' a') (h : a.Follows made) (mode : Mode) :
    spinOf mode (made ++ c.toList) =
      spinOf mode made + a.due.ahead mode + a'.due.spin mode := by
  cases toll with
  | @firstRefused stage rest | @firstGranted stage rest =>
    rw [Option.toList_some, (h.2 stage List.mem_cons_self).spinOf_first]
    simp [Activity.due]
  | @retry m left _ granted ha' =>
    rw [ha', Option.toList_some, Tried.spinOf_retry h]
    rfl
  | @sliceRefused m | @sliceGranted m => simp [spinOf_slice, Activity.due]
  | busy | spin | tally | downgrade => simp [Activity.due]
  | lower =>
    rw [spinOf_append_of_untried (by simp [Untried, RawCall.mode?])]
    rfl
  | quiet ha ha' hc => simp [spinOf_append_of_untried (untried_unlock hc), ha, ha']

/-- A step that lowers the raw lock has yet to count it. -/
theorem downgrades_eq (toll : Toll l a c l' a') :
    (made ++ c.toList).count .downgrade = made.count .downgrade + a'.due.downgraded := by
  cases toll with
  | retry granted ha' => simp [ha']
  | quiet _ ha' hc => rcases hc with rfl | rfl | rfl <;> simp [ha']
  | _ => simp [Activity.due]

/-- What was due is counted, and nothing else. -/
theorem busy_eq (toll : Toll l a c l' a') (mode : Mode) :
    (l'.tally mode).busy.value = (l.tally mode).busy.value + .ofNat (a.due.busy mode) := by
  cases toll with
  | busy => exact busy_countBusy l _ mode
  | spin | tally =>
    rw [busy_countSpin]
    exact (UInt64.add_zero _).symm
  | quiet ha _ _ tallies =>
    rw [ha, tallies]
    exact (UInt64.add_zero _).symm
  | downgrade => cases mode <;> exact (UInt64.add_zero _).symm
  | _ => exact (UInt64.add_zero _).symm

/-- What was due is counted, and an attempt that is made next. -/
theorem spin_eq (toll : Toll l a c l' a') (mode : Mode) :
    (l'.tally mode).spin.value =
      (l.tally mode).spin.value + .ofNat (a.due.spin mode + a'.due.ahead mode) := by
  cases toll with
  | busy =>
    rw [spin_countBusy]
    exact (UInt64.add_zero _).symm
  | spin =>
    rw [spin_countSpin]
    simp [Activity.due]
  | tally => exact spin_countSpin l _ mode
  | retry _ ha' =>
    rw [ha']
    exact (UInt64.add_zero _).symm
  | quiet ha ha' _ tallies =>
    rw [ha, ha', tallies]
    exact (UInt64.add_zero _).symm
  | downgrade => cases mode <;> exact (UInt64.add_zero _).symm
  | _ => exact (UInt64.add_zero _).symm

/-- What a step adds to the count of lowered locks was due before. -/
theorem downgraded_eq (toll : Toll l a c l' a') :
    l'.downgraded.value = l.downgraded.value + .ofNat a.due.downgraded := by
  cases toll with
  | downgrade => rfl
  | busy =>
    rw [downgraded_countBusy]
    exact (UInt64.add_zero _).symm
  | spin | tally =>
    rw [downgraded_countSpin]
    exact (UInt64.add_zero _).symm
  | quiet ha _ _ _ downgraded =>
    rw [ha, downgraded]
    exact (UInt64.add_zero _).symm
  | _ => exact (UInt64.add_zero _).symm

end Toll

/-! ## The counters as an account -/

/-- The counters of a lock are an account of these calls, which are kept operation by operation,
latest first; the latest one stands as `a` says. -/
structure Counted (records : List (List RawCall)) (l : ReadWrite) (a : Activity) : Prop where
  busy : ∀ mode, (l.tally mode).busy.value + .ofNat (a.due.busy mode) =
    .ofNat (records.map (busyOf mode)).sum
  spin : ∀ mode, (l.tally mode).spin.value + .ofNat (a.due.spin mode) =
    .ofNat ((records.map (spinOf mode)).sum + a.due.ahead mode)
  downgraded : l.downgraded.value + .ofNat a.due.downgraded =
    .ofNat (records.map (·.count .downgrade)).sum

namespace Counted

variable {σ : Type} {raw : Raw σ} {me : Nat} {s : State σ} {a a' : Activity}
  {made : List RawCall} {records : List (List RawCall)} {l l' : ReadWrite}

/-- The account of an operation stays right when it takes a step. -/
theorem step (raw : Raw σ) (me : Nat) (h : Counted (made :: records) s.lock a)
    (follows : a.Follows made) :
    Counted ((made ++ (a.call? raw s.world).toList) :: records)
      (ReadWrite.step raw me s a).1.lock (ReadWrite.step raw me s a).2 := by
  have toll := step_toll raw me s a
  refine ⟨fun mode => ?_, fun mode => ?_, ?_⟩
  · rw [toll.busy_eq, h.busy, ← UInt64.ofNat_add]
    congr 1
    simp only [List.map_cons, List.sum_cons, toll.busyOf_eq follows]
    omega
  · have before := h.spin mode
    rw [toll.spin_eq, UInt64.ofNat_add, ← UInt64.add_assoc, before, ← UInt64.ofNat_add,
      ← UInt64.ofNat_add]
    congr 1
    simp only [List.map_cons, List.sum_cons, toll.spinOf_eq follows]
    omega
  · rw [toll.downgraded_eq, h.downgraded, ← UInt64.ofNat_add]
    congr 1
    simp only [List.map_cons, List.sum_cons, toll.downgrades_eq]
    omega

/-- Places at which nothing is due are as good as each other. -/
theorem congr (h : Counted records l a) (ha : a.due = {}) (ha' : a'.due = {})
    (tallies : l'.tally = l.tally) (downgraded : l'.downgraded = l.downgraded) :
    Counted records l' a' := by
  refine ⟨fun mode => ?_, fun mode => ?_, ?_⟩
  · rw [tallies, ha', ← h.busy mode, ha]
  · rw [tallies, ha', ← ha, h.spin mode]
  · rw [downgraded, ha', ← h.downgraded, ha]

/-- An operation begins with no calls. -/
theorem start (h : Counted records l (.finished .released)) (op : Operation) :
    Counted ([] :: records) l op.start := by
  have begun : Counted records l op.start := h.congr rfl (Activity.due_start op) rfl rfl
  refine ⟨fun mode => ?_, fun mode => ?_, ?_⟩
  · simpa [busyOf] using begun.busy mode
  · simpa [spinOf] using begun.spin mode
  · simpa using begun.downgraded

/-- At every point of an operation the counters are an account of what was called so far. -/
theorem walk (raw : Raw σ) (me : Nat) (h : Counted records s.lock (.finished .released))
    (op : Operation) (n : Nat) :
    ∃ made, s.Since (walk raw me n (s, op.start)).1 made ∧
      (walk raw me n (s, op.start)).2.Follows made ∧
      Counted (made :: records) (walk raw me n (s, op.start)).1.lock
        (walk raw me n (s, op.start)).2 := by
  induction n with
  | zero => exact ⟨[], rfl, Activity.follows_start op, h.start op⟩
  | succ n ih =>
    obtain ⟨made, since, follows, counted⟩ := ih
    rw [walk_succ']
    exact ⟨_, since.step _, follows.step raw me, counted.step raw me follows⟩

/-- The account of a fresh lock is empty. -/
theorem fresh (spinLimit : Nat) (a : Activity) (ha : a.due = {}) :
    Counted [] { spinLimit } a := by
  refine ⟨fun mode => ?_, fun mode => ?_, ?_⟩
  · rw [ha]
    cases mode <;> rfl
  · rw [ha]
    cases mode <;> rfl
  · rw [ha]
    rfl

/-- Clearing the counters empties the account. -/
theorem clear (l : ReadWrite) : Counted [] l.clearCounters (.finished .released) :=
  have tallies : l.clearCounters.tally = ({ spinLimit := l.spinLimit } : ReadWrite).tally := by
    funext mode
    cases mode <;> rfl
  (fresh l.spinLimit (.finished .released) rfl).congr rfl rfl tallies rfl

end Counted

/-! ## Runs -/

namespace Session

variable {σ α : Type} {raw : Raw σ} {thread : Nat} {first s : Session σ}

namespace Recorded

variable {records : List (List RawCall)}

/-- Between two operations the counters are an account of all calls since they were cleared. -/
theorem counted (yields : Yields raw) (rest : AtRest thread first)
    (zero : Counted [] first.lock (.finished .released))
    (r : Recorded raw thread first records s) : Counted records s.lock (.finished .released) := by
  induction r with
  | start => exact zero
  | @call records s made op r since ih =>
    have free := (rest.visited yields r.visited).free
    obtain ⟨result, ended⟩ :=
      operate_ends (Tokens.numbered.of thread) yields op s.system.state
    obtain ⟨n, driven⟩ := exists_walk_of_drive raw (Tokens.numbered.of thread)
      (fuel raw s.system.state) (s.system.state, op.start)
    obtain ⟨made', since', -, counted⟩ := ih.walk raw (Tokens.numbered.of thread) op n
    rw [← driven] at since' counted
    rw [call_eq free] at since ⊢
    -- the calls that were made are determined by the two states
    obtain rfl : made' = made :=
      List.reverse_inj.1 (List.append_cancel_right (since'.symm.trans since))
    have place : (drive raw (Tokens.numbered.of thread) (fuel raw s.system.state)
      (s.system.state, op.start)).2 = .finished result := ended
    rw [place] at counted
    exact counted.congr rfl rfl rfl rfl
  | keep guards _ ih => exact ih
  | setDebug on _ ih => exact ih.congr rfl rfl rfl rfl
  | clear _ _ => exact .clear _

/-- The spins that a lock allows itself are those that it was made with. -/
theorem spinLimit_eq (r : Recorded raw thread first records s)
    (yields : Yields raw) (rest : AtRest thread first) :
    s.lock.spinLimit = first.lock.spinLimit := by
  induction r with
  | start => rfl
  | @call records s made op r since ih =>
    rw [call_eq (rest.visited yields r.visited).free]
    exact drive_induction (P := fun t _ => t.lock.spinLimit = first.lock.spinLimit)
      (fun t a kept => (step_spinLimit t a).trans kept) (fuel raw s.system.state) ih
  | keep guards _ ih => exact ih
  | setDebug on _ ih => exact ih
  | clear _ ih => exact ih

end Recorded

end Session

/-! ## The account of a lock -/

/-- Modulo 2^64, the counters of a lock are what these calls come to, which are kept operation by
operation. -/
structure Account (records : List (List RawCall)) (l : ReadWrite) : Prop where
  busy : ∀ mode, (l.tally mode).busy.value = .ofNat (records.map (busyOf mode)).sum
  spin : ∀ mode, (l.tally mode).spin.value = .ofNat (records.map (spinOf mode)).sum
  downgraded : l.downgraded.value = .ofNat (records.map (·.count .downgrade)).sum

/-- Where nothing is due the counters are exact. -/
theorem Counted.account {records : List (List RawCall)} {l : ReadWrite}
    (h : Counted records l (.finished .released)) : Account records l where
  busy mode := (UInt64.add_zero _).symm.trans (h.busy mode)
  spin mode := (UInt64.add_zero _).symm.trans (h.spin mode)
  downgraded := (UInt64.add_zero _).symm.trans h.downgraded

/-- The calls of an acquisition that tries to write first: that attempt is charged to writing alone,
and those after it to reading alone. -/
def ChargedApart (made : List RawCall) : Prop :=
  made = [] ∨ ∃ granted later, made = .attempt .write false granted :: later ∧
    (∀ c ∈ later, c.mode? = some .read) ∧
    busyOf .write made = (if granted then 0 else 1) ∧ spinOf .write made = 0 ∧
    busyOf .read made = busyOf .read later ∧ spinOf .read made = spinOf .read later

/-- A strategy that tries to write first charges that attempt to writing alone. -/
theorem chargedApart_of_respects {strategy : Strategy} {made : List RawCall} {a : Activity}
    (h : strategy.Respects made a) (writeFirst : strategy.isWriteFirst = true) :
    ChargedApart made := by
  rcases h.writeFirst writeFirst with none | ⟨granted, later, rfl, reads, -⟩
  · exact .inl none
  · have unwritten : Untried .write later := by
      intro c hc
      rw [reads c hc]
      exact fun same => nomatch same
    have unread : Untried .read [.attempt .write false granted] :=
      untried_attempt (by simp) false granted
    rw [← List.singleton_append]
    refine .inr ⟨granted, later, rfl, reads, ?_, ?_, ?_, ?_⟩
    · rw [busyOf_append_of_untried unwritten]
      cases granted <;> rfl
    · rw [spinOf_append_of_untried unwritten]
      cases granted <;> rfl
    · exact unread.busyOf_append later
    · exact unread.spinOf_append later

/-- **The counters are an account of the raw calls.**  Whatever the raw lock answers, after any
steps of a thread that uses the lock alone, and modulo 2^64: in each mode `busy` is how many
operations had their first attempt refused and `spin` how many attempts were made after the first
and slices waited in vain, and `downgraded` is how often the raw lock was lowered, all of that over
the operations of the steps since the lock was made or its counters were cleared.  The same holds
between the operations of a step, and in the middle of an operation the counters differ from that by
what its place says (`Counted`).  An acquisition that tries to write first charges that attempt to
writing alone and the rest to reading alone; and before an acquisition waits for its first slice,
its first attempt in that mode and as many further ones as it may spin were refused. -/
theorem Session.counts_calls {σ α : Type} {raw : Raw σ} (yields : Yields raw) (spinLimit : Nat)
    (world : σ) :
    let first : Session σ := { system := System.fresh 1 spinLimit world }
    (∀ steps : List (Step α),
      Recorded raw 0 first (recorded raw 0 [] first steps) (first.run raw 0 steps).2 ∧
      Account (recorded raw 0 [] first steps) (first.run raw 0 steps).2.lock) ∧
    ∀ records s, Recorded raw 0 first records s → Account records s.lock ∧
      ∀ (op : Operation) (n : Nat), ∃ made,
        s.system.state.Since (walk raw (Tokens.numbered.of 0) n (s.system.state, op.start)).1 made ∧
        Counted (made :: records)
          (walk raw (Tokens.numbered.of 0) n (s.system.state, op.start)).1.lock
          (walk raw (Tokens.numbered.of 0) n (s.system.state, op.start)).2 ∧
        ∀ strategy : Strategy, op = .acquire strategy →
          (strategy.isWriteFirst = true → ChargedApart made) ∧
          ∀ mode earlier granted later, made = earlier ++ .attempt mode true granted :: later →
            (∀ c ∈ earlier, c.isTimed = false) →
            earlier.filter (·.mode? == some mode) = refused mode false (spinLimit + 1) := by
  intro first
  have rest : AtRest 0 first := atRest_fresh spinLimit world
  have exact_at {records : List (List RawCall)} {s : Session σ}
      (r : Recorded raw 0 first records s) :
      Counted records s.lock (.finished .released) :=
    r.counted yields rest (.fresh spinLimit _ rfl)
  refine ⟨fun steps => ?_, fun records s recorded => ⟨(exact_at recorded).account, fun op n => ?_⟩⟩
  · have recorded := recorded_run (show Recorded raw 0 first [] first from .start) steps
    exact ⟨recorded, (exact_at recorded).account⟩
  · have limit : s.lock.spinLimit = spinLimit := recorded.spinLimit_eq yields rest
    obtain ⟨made, since, -, going⟩ := (exact_at recorded).walk raw (Tokens.numbered.of 0) op n
    refine ⟨made, since, going, ?_⟩
    rintro strategy rfl
    obtain ⟨made', since', placed, -⟩ := placed_walk raw (Tokens.numbered.of 0) strategy.stages.1
      strategy.stages.2 s.system.state n
    obtain rfl : made' = made :=
      List.reverse_inj.1 (List.append_cancel_right (since'.symm.trans since))
    refine ⟨chargedApart_of_respects (Strategy.respects_of_placed placed), ?_⟩
    intro mode earlier granted later split untimed
    rw [← limit]
    exact placed.before_slice strategy.nodup_modes split untimed

/-- Answers that refuse the first attempt in either mode, and then each of two further attempts to
read and two slices. -/
def Script.reluctant : Script where
  shared := ⟨[(false, 3)]⟩
  exclusive := ⟨[(true, 1), (false, 1)]⟩
  sharedFor := ⟨[(false, 2)]⟩

/-- The lock is written and lowered, its counters are cleared, and then it is tried for writing and
waited for.  What was written and lowered before counts until then. -/
theorem counts_calls_of_reluctant :
    let first : Session Script := { system := System.fresh 1 2 Script.reluctant }
    let before : List (Step Unit) := [.guard .write, .downgradeGuard]
    let steps := before ++ [.clear, .acquire .tryForWritingThenForReading]
    let lock (steps : List (Step Unit)) := (first.run Script.raw 0 steps).2.lock
    let records (steps : List (Step Unit)) := Session.recorded Script.raw 0 [] first steps
    ((lock before).downgraded = ⟨1⟩ ∧
      records before = [[.downgrade], [.attempt .write false true]] ∧
      Account (records before) (lock before)) ∧
    ((lock steps).reading = ⟨⟨1⟩, ⟨4⟩⟩ ∧ (lock steps).writing = ⟨⟨1⟩, ⟨0⟩⟩ ∧
      (lock steps).downgraded = ⟨0⟩) ∧
      (records steps).map List.length = [7] ∧ Account (records steps) (lock steps) := by
  intro first before steps lock records
  have account := (Session.counts_calls (α := Unit) Script.yields 2 Script.reluctant).1
  exact ⟨⟨by decide +kernel, by decide +kernel, (account before).2⟩, by decide +kernel,
    by decide +kernel, (account steps).2⟩

end Interlock.ReadWrite
