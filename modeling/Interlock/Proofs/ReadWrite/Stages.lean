import Interlock.Proofs.ReadWrite.Attempts

/-!
# What the stages of an acquisition tell

The attempts that an acquisition makes are told by its stages (`Placed`).  What follows from there:
what was granted is what the acquisition ends with (`Placed.granted`), a stage that does not wait
makes one attempt and counts no spin (`Placed.mode_prefix`, `Placed.of_two`, `spin_walk`), one that
waits spins as often as it may before its first slice (`Placed.before_slice`), and an acquisition
that does not end goes on making attempts (`exists_calls`).
-/

namespace Interlock.ReadWrite

/-! ## What a call tells -/

namespace RawCall

/-- The mode that an attempt is made in. -/
def mode? : RawCall → Option Mode
  | .attempt mode _ _ => some mode
  | _ => none

/-- The mode that a call grants. -/
def granted? : RawCall → Option Mode
  | .attempt mode _ true => some mode
  | _ => none

/-- Whether a call waits for a slice of time. -/
def isTimed : RawCall → Bool
  | .attempt _ timed _ => timed
  | _ => false

end RawCall

/-- The modes that were granted when an acquisition ends with this level. -/
def Level.granted : Level → List Mode
  | .unlocked => []
  | .read => [.read]
  | .write => [.write]

theorem granted_level (mode : Mode) : mode.level.granted = [mode] := by cases mode <;> rfl

theorem level_ne_unlocked (mode : Mode) : mode.level ≠ .unlocked := by
  cases mode <;> simp [Mode.level]

theorem granted_refused (mode : Mode) (timed : Bool) (n : Nat) :
    (refused mode timed n).filterMap RawCall.granted? = [] :=
  List.filterMap_eq_nil_iff.2 fun _ h => by rw [List.eq_of_mem_replicate h]; rfl

theorem granted_waited (spins : Nat) (mode : Mode) (slices : Nat) :
    (waited spins mode slices).filterMap RawCall.granted? = [] := by
  rw [waited, List.filterMap_append, granted_refused, granted_refused, List.append_nil]

theorem granted_refusals (stages : List Stage) :
    (stages.map Stage.refusal).filterMap RawCall.granted? = [] := by
  refine List.filterMap_eq_nil_iff.2 fun c hc => ?_
  obtain ⟨stage, -, rfl⟩ := List.mem_map.1 hc
  rfl

/-! ## What the stages tell -/

section Stages

variable {spins : Nat} {stage : Stage} {stages rest : List Stage} {made : List RawCall}
  {a : Activity}

/-- A call is an attempt of this stage. -/
def Stage.Makes (stage : Stage) (c : RawCall) : Prop :=
  ∃ timed granted, c = .attempt stage.mode timed granted ∧ (timed = true → stage.waits = true)

theorem makes_of_mem_refused {mode : Mode} {n : Nat} {c : RawCall} (hmode : stage.mode = mode)
    (hc : c ∈ refused mode false n) : stage.Makes c :=
  ⟨false, false, hmode ▸ List.eq_of_mem_replicate hc, by simp⟩

/-- What a stage calls while it waits is what a waiting stage makes. -/
theorem makes_of_mem_waited {slices : Nat} {c : RawCall} (waits : stage.waits = true)
    (hc : c ∈ waited spins stage.mode slices) : stage.Makes c := by
  rcases List.mem_append.1 hc with hc | hc
  · exact makes_of_mem_refused rfl hc
  · exact ⟨true, false, List.eq_of_mem_replicate hc, fun _ => waits⟩

/-- A stage that won made its own calls only. -/
theorem Won.makes (h : Won spins stage made) : ∀ c ∈ made, stage.Makes c := by
  cases h with
  | atOnce =>
    intro c hc
    rcases List.mem_append.1 hc with hc | hc
    · exact makes_of_mem_refused rfl hc
    · exact ⟨false, true, List.mem_singleton.1 hc, by simp⟩
  | inTime waits =>
    intro c hc
    rcases List.mem_append.1 hc with hc | hc
    · exact makes_of_mem_waited waits hc
    · exact ⟨true, true, List.mem_singleton.1 hc, fun _ => waits⟩

/-- A stage that won was granted its own mode, once. -/
theorem Won.granted (h : Won spins stage made) :
    made.filterMap RawCall.granted? = [stage.mode] := by
  cases h with
  | atOnce => rw [List.filterMap_append, granted_refused]; rfl
  | inTime => rw [List.filterMap_append, granted_waited]; rfl

/-- A stage under way has made its own calls only. -/
theorem During.makes (h : During spins stage rest made a) : ∀ c ∈ made, stage.Makes c := by
  have refusal : ∀ c ∈ [stage.refusal], stage.Makes c := by
    intro c hc
    exact ⟨false, false, List.mem_singleton.1 hc, by simp⟩
  cases h with
  | trying => exact List.forall_mem_nil _
  | counting | noting => exact refusal
  | spinning | retrying => exact fun c => makes_of_mem_refused rfl
  | slicing waits | tallying waits | waitingOn waits => exact fun c => makes_of_mem_waited waits
  | recording won | acquired won => exact won.makes

/-- A stage seeks the lock until an attempt is granted, and then has its mode. -/
theorem During.granted (h : During spins stage rest made a) :
    made.filterMap RawCall.granted? = [] ∧ a.isSeeking = true ∨
      made.filterMap RawCall.granted? = [stage.mode] ∧
        (a = .recording stage.mode ∨ a = .finished (.acquired stage.mode.level)) := by
  cases h with
  | trying | counting | noting => exact .inl ⟨rfl, rfl⟩
  | spinning | retrying => exact .inl ⟨granted_refused _ _ _, rfl⟩
  | slicing | tallying | waitingOn => exact .inl ⟨granted_waited _ _ _, rfl⟩
  | recording won => exact .inr ⟨won.granted, .inl rfl⟩
  | acquired won => exact .inr ⟨won.granted, .inr rfl⟩

/-- A stage that does not wait makes one attempt, at once. -/
theorem During.of_not_waits (h : During spins stage rest made a) (waits : stage.waits = false) :
    made = [] ∨ ∃ granted, made = [.attempt stage.mode false granted] := by
  have never {p : Prop} (h : stage.waits = true) : p := by simp [waits] at h
  have won (h : Won spins stage made) : made = [.attempt stage.mode false true] := by
    cases h with
    | @atOnce tries few =>
      cases tries with
      | zero => rfl
      | succ tries => exact never (few (Nat.succ_pos tries)).1
    | inTime waits' => exact never waits'
  cases h with
  | trying => exact .inl rfl
  | counting | noting => exact .inr ⟨false, rfl⟩
  | spinning waits' | retrying waits' | slicing waits' | tallying waits' | waitingOn waits' =>
    exact never waits'
  | recording won' | acquired won' => exact .inr ⟨true, won won'⟩

/-- Every call of an acquisition is made by one of its stages. -/
theorem Placed.makes (h : Placed spins stages made a) :
    ∀ c ∈ made, ∃ stage ∈ stages, stage.Makes c := by
  have refusal {p : Stage} : p.Makes p.refusal := ⟨false, false, rfl, by simp⟩
  cases h with
  | nothing =>
    intro c hc
    obtain ⟨p, hp, rfl⟩ := List.mem_map.1 hc
    exact ⟨p, hp, refusal⟩
  | @during passed rest stage _ _ split _ h =>
    subst split
    intro c hc
    rcases List.mem_append.1 hc with hc | hc
    · obtain ⟨p, hp, rfl⟩ := List.mem_map.1 hc
      exact ⟨p, List.mem_append_left _ hp, refusal⟩
    · exact ⟨stage, by simp, h.makes c hc⟩

/-- An acquisition seeks the lock until an attempt is granted or every stage has given up. -/
theorem Placed.granted (h : Placed spins stages made a) :
    made.filterMap RawCall.granted? = [] ∧ (a.isSeeking = true ∨
        a = .finished (.acquired .unlocked) ∧ ∀ p ∈ stages, p.waits = false) ∨
      ∃ stage ∈ stages, made.filterMap RawCall.granted? = [stage.mode] ∧
        (a = .recording stage.mode ∨ a = .finished (.acquired stage.mode.level)) := by
  cases h with
  | nothing gaveUp => exact .inl ⟨granted_refusals stages, .inr ⟨rfl, gaveUp⟩⟩
  | @during passed rest stage _ _ split _ h =>
    rw [List.filterMap_append, granted_refusals, List.nil_append]
    rcases h.granted with ⟨none, seeking⟩ | ⟨one, stands⟩
    · exact .inl ⟨none, .inl seeking⟩
    · exact .inr ⟨stage, by simp [split], one, stands⟩

/-- Where no stage waits, each makes one attempt at most, in their order. -/
theorem Placed.mode_prefix (h : Placed spins stages made a) (calm : ∀ p ∈ stages, p.waits = false) :
    made.filterMap RawCall.mode? <+: stages.map Stage.mode := by
  have behind (passed : List Stage) :
      (passed.map Stage.refusal).filterMap RawCall.mode? = passed.map Stage.mode := by
    rw [List.filterMap_map]
    exact congrFun List.filterMap_eq_map passed
  cases h with
  | nothing => exact behind stages ▸ List.prefix_refl _
  | @during passed rest stage _ _ split _ h =>
    have waits : stage.waits = false := calm stage (by simp [split])
    rw [split, List.filterMap_append, behind, List.map_append]
    refine (List.prefix_append_right_inj _).2 ?_
    rcases h.of_not_waits waits with rfl | ⟨granted, rfl⟩
    · exact List.nil_prefix
    · exact ⟨rest.map Stage.mode, rfl⟩

/-- A first stage that does not wait makes a single attempt, and the second one begins only when
that was refused. -/
theorem Placed.of_two {first second : Stage} (h : Placed spins [first, second] made a)
    (waits : first.waits = false) :
    made = [] ∨ ∃ granted later, made = .attempt first.mode false granted :: later ∧
      (∀ c ∈ later, second.Makes c) ∧ (later ≠ [] → granted = false) := by
  cases h with
  | nothing =>
    refine .inr ⟨false, [second.refusal], rfl, ?_, fun _ => rfl⟩
    exact fun c hc => ⟨false, false, List.mem_singleton.1 hc, by simp⟩
  | @during passed rest stage made' _ split _ h =>
    -- the acquisition is in its first stage, in its second, or the list would be longer
    match passed, split with
    | [], split =>
      obtain ⟨rfl, rfl⟩ := List.cons.inj split
      rcases h.of_not_waits waits with rfl | ⟨granted, rfl⟩
      · exact .inl rfl
      · exact .inr ⟨granted, [], rfl, List.forall_mem_nil _, (absurd rfl ·)⟩
    | [_], split =>
      obtain ⟨rfl, tail⟩ := List.cons.inj split
      obtain ⟨rfl, -⟩ := List.cons.inj tail
      exact .inr ⟨false, made', rfl, h.makes, fun _ => rfl⟩
    | _ :: _ :: _, split => simp at split

end Stages

/-! ## Before the first slice -/

section Slices

variable {spins : Nat} {stage : Stage} {stages rest : List Stage}
  {made earlier later : List RawCall} {a : Activity} {c : RawCall}

theorem isTimed_of_mem_refused {mode : Mode} {timed : Bool} {n : Nat}
    (hc : c ∈ refused mode timed n) : c.isTimed = timed := by
  rw [List.eq_of_mem_replicate hc]
  rfl

theorem isTimed_refusal (passed : List Stage) (hc : c ∈ passed.map Stage.refusal) :
    c.isTimed = false := by
  obtain ⟨p, -, rfl⟩ := List.mem_map.1 hc
  rfl

/-- A stage makes its first attempt and all it may spin before it waits for a slice. -/
theorem During.timed (h : During spins stage rest made a) :
    (∀ c ∈ made, c.isTimed = false) ∨
      ∃ slices, made = refused stage.mode false (spins + 1) ++ slices ∧
        ∀ c ∈ slices, c.isTimed = true ∧ c.mode? = some stage.mode := by
  have waited_split (slices : Nat) (more : List RawCall)
      (hmore : ∀ c ∈ more, c.isTimed = true ∧ c.mode? = some stage.mode) :
      ∃ slices', waited spins stage.mode slices ++ more =
          refused stage.mode false (spins + 1) ++ slices' ∧
        ∀ c ∈ slices', c.isTimed = true ∧ c.mode? = some stage.mode := by
    refine ⟨refused stage.mode true slices ++ more, by rw [waited, List.append_assoc], ?_⟩
    intro c hc
    rcases List.mem_append.1 hc with hc | hc
    · rw [List.eq_of_mem_replicate hc]
      exact ⟨rfl, rfl⟩
    · exact hmore c hc
  have won (h : Won spins stage made) : (∀ c ∈ made, c.isTimed = false) ∨
      ∃ slices, made = refused stage.mode false (spins + 1) ++ slices ∧
        ∀ c ∈ slices, c.isTimed = true ∧ c.mode? = some stage.mode := by
    cases h with
    | atOnce =>
      left
      intro c hc
      rcases List.mem_append.1 hc with hc | hc
      · exact isTimed_of_mem_refused hc
      · rw [List.mem_singleton.1 hc]
        rfl
    | inTime =>
      right
      apply waited_split
      intro c hc
      rw [List.mem_singleton.1 hc]
      exact ⟨rfl, rfl⟩
  cases h with
  | trying => exact .inl (List.forall_mem_nil _)
  | counting | noting => exact .inl (by simp [Stage.refusal, RawCall.isTimed])
  | spinning | retrying => exact .inl fun c => isTimed_of_mem_refused
  | @slicing slices | @tallying slices | @waitingOn slices =>
    right
    simpa using waited_split slices [] (List.forall_mem_nil _)
  | recording h => exact won h
  | acquired h => exact won h

/-- Of two splits at the first timed call, both come before it at the same place. -/
theorem eq_of_split {before slices : List RawCall}
    (split : before ++ slices = earlier ++ c :: later)
    (untimed : ∀ c ∈ before, c.isTimed = false) (timed : ∀ c ∈ slices, c.isTimed = true)
    (first : ∀ c ∈ earlier, c.isTimed = false) (hc : c.isTimed = true) :
    earlier = before ∧ c ∈ slices := by
  rcases List.append_eq_append_iff.1 split with ⟨more, hearlier, hslices⟩ | ⟨more, hbefore, hlater⟩
  · cases more with
    | nil =>
      rw [List.append_nil] at hearlier
      exact ⟨hearlier, hslices ▸ List.mem_cons_self⟩
    | cons d more =>
      have untimed' := first d (hearlier ▸ List.mem_append_right _ List.mem_cons_self)
      have timed' := timed d (hslices ▸ List.mem_cons_self)
      rw [timed'] at untimed'
      cases untimed'
  · cases more with
    | nil =>
      have hslices : slices = c :: later := hlater.symm
      rw [List.append_nil] at hbefore
      exact ⟨hbefore.symm, hslices ▸ List.mem_cons_self⟩
    | cons d more =>
      obtain ⟨rfl, -⟩ := List.cons.inj hlater
      have untimed' := untimed c (hbefore ▸ List.mem_append_right _ List.mem_cons_self)
      rw [hc] at untimed'
      cases untimed'

/-- Before the first slice, the calls in its mode are the first attempt and as many further ones as
the lock may spin, all refused. -/
theorem Placed.before_slice (h : Placed spins stages made a)
    (nodup : (stages.map Stage.mode).Nodup) {mode : Mode} {granted : Bool}
    (split : made = earlier ++ .attempt mode true granted :: later)
    (first : ∀ c ∈ earlier, c.isTimed = false) :
    earlier.filter (·.mode? == some mode) = refused mode false (spins + 1) := by
  have mem : .attempt mode true granted ∈ made := by simp [split]
  cases h with
  | nothing => exact absurd (isTimed_refusal stages mem) (by simp [RawCall.isTimed])
  | @during passed rest stage made' _ stages' _ h =>
    rcases h.timed with untimed | ⟨slices, rfl, timed⟩
    · have none : (RawCall.attempt mode true granted).isTimed = false :=
        (List.mem_append.1 mem).elim (isTimed_refusal passed) (untimed _)
      cases none
    · rw [← List.append_assoc] at split
      obtain ⟨rfl, inside⟩ := eq_of_split split
        (fun c hc => (List.mem_append.1 hc).elim (isTimed_refusal passed) isTimed_of_mem_refused)
        (fun c hc => (timed c hc).1) first rfl
      obtain rfl : mode = stage.mode := Option.some.inj (timed _ inside).2
      -- the stages behind had other modes
      rw [stages', List.map_append, List.nodup_append] at nodup
      have others : (passed.map Stage.refusal).filter (·.mode? == some stage.mode) = [] := by
        apply List.filter_eq_nil_iff.2
        intro c hc same
        obtain ⟨p, hp, rfl⟩ := List.mem_map.1 hc
        refine nodup.2.2 p.mode (List.mem_map_of_mem hp) stage.mode (by simp) ?_
        exact Option.some.inj (beq_iff_eq.1 same)
      have same : (refused stage.mode false (spins + 1)).filter (·.mode? == some stage.mode) =
          refused stage.mode false (spins + 1) := by
        apply List.filter_eq_self.2
        intro c hc
        rw [List.eq_of_mem_replicate hc]
        exact beq_self_eq_true _
      rw [List.filter_append, others, same, List.nil_append]

end Slices

/-! ## Counting spins -/

variable {σ : Type} {raw : Raw σ} {me : Nat}

/-- The mode in which the next step counts a spin. -/
def Activity.spins? : Activity → Option Mode
  | .spinning mode _ => some mode
  | .tallying mode => some mode
  | _ => none

theorem spin_tally_of_ne {mode other : Mode} (h : mode ≠ other) (l : ReadWrite)
    (f : Tally → Tally) : (l.updateTally f mode).tally other = l.tally other := by
  cases mode with
  | read =>
    cases other with
    | read => exact absurd rfl h
    | write => rfl
  | write =>
    cases other with
    | read => rfl
    | write => exact absurd rfl h

theorem spin_countBusy (l : ReadWrite) (mode other : Mode) :
    ((l.countBusy mode).tally other).spin = (l.tally other).spin := by
  cases mode <;> cases other <;> rfl

/-- A step that does not spin in a mode leaves its count. -/
theorem step_spin {mode : Mode} {s : State σ} {a : Activity} (h : a.spins? ≠ some mode) :
    ((step raw me s a).1.lock.tally mode).spin = (s.lock.tally mode).spin := by
  cases a with
  | spinning other | tallying other =>
    have different : other ≠ mode := fun same => h (congrArg some same)
    exact congrArg Tally.spin (spin_tally_of_ne different _ _)
  | counting stage => exact spin_countBusy s.lock stage.mode mode
  | trying stage rest =>
    rcases answer : raw.attempt stage.mode false s.world with ⟨_ | _, w⟩ <;>
      simp [step, State.attempt, answer]
  | retrying other =>
    rcases answer : raw.attempt other false s.world with ⟨_ | _, w⟩ <;>
      simp [step, State.attempt, answer]
  | slicing other =>
    rcases answer : raw.attempt other true s.world with ⟨_ | _, w⟩ <;>
      simp [step, State.attempt, answer]
  | noting stage => simp only [step]; split <;> rfl
  | recording other => cases other <;> cases mode <;> rfl
  | releasing | checking => simp only [step]; split <;> cases mode <;> rfl
  | leaving => simp only [step]; split <;> cases mode <;> rfl
  | _ => cases mode <;> rfl

/-- Only a stage that waits counts spins, in its own mode. -/
theorem Placed.waits_of_spins {spins : Nat} {stages : List Stage} {made : List RawCall}
    {a : Activity} {mode : Mode} (h : Placed spins stages made a) (ha : a.spins? = some mode) :
    ∃ stage ∈ stages, stage.mode = mode ∧ stage.waits = true := by
  cases h with
  | nothing => cases ha
  | @during passed rest stage _ _ split _ h =>
    have mem : stage ∈ stages := by simp [split]
    cases h with
    | spinning waits | tallying waits => exact ⟨stage, mem, Option.some.inj ha, waits⟩
    | _ => cases ha

/-- While no stage waits in a mode, nothing is counted as a spin in it. -/
theorem spin_walk {stage : Stage} {rest : List Stage} {mode : Mode}
    (calm : ∀ p ∈ stage :: rest, p.mode = mode → p.waits = false) (s : State σ) (n : Nat) :
    ((walk raw me n (s, .trying stage rest)).1.lock.tally mode).spin =
      (s.lock.tally mode).spin := by
  induction n with
  | zero => rfl
  | succ n ih =>
    obtain ⟨made, -, placed, -⟩ := placed_walk raw me stage rest s n
    rw [walk_succ', ← ih]
    refine step_spin fun spins => ?_
    obtain ⟨p, hp, hmode, waits⟩ := placed.waits_of_spins spins
    exact absurd waits (by simp [calm p hp hmode])

/-! ## Calls are made until one is granted -/

/-- A walk on from here comes to its end or makes a further call. -/
def GoesOn (raw : Raw σ) (me : Nat) (s : State σ) (a : Activity) : Prop :=
  ∃ n, (∃ level, (walk raw me n (s, a)).2 = .finished (.acquired level)) ∨
    s.calls.length < (walk raw me n (s, a)).1.calls.length

/-- An operation goes on to its next call if it does so after a step. -/
theorem GoesOn.of_step {s : State σ} {a : Activity}
    (h : GoesOn raw me (step raw me s a).1 (step raw me s a).2) : GoesOn raw me s a := by
  obtain ⟨n, h⟩ := h
  refine ⟨n + 1, ?_⟩
  rw [walk_succ]
  have grown := (calls_suffix_step raw me s a).length_le
  exact h.imp_right (Nat.lt_of_le_of_lt grown)

/-- An operation that is about to call goes on to a call. -/
theorem goesOn_of_call {s : State σ} {a : Activity} {c : RawCall}
    (h : a.call? raw s.world = some c) : GoesOn raw me s a := by
  refine ⟨1, .inr ?_⟩
  rw [walk_succ', show walk raw me 0 (s, a) = (s, a) from rfl, step_calls, h]
  exact Nat.lt_succ_self _

theorem goesOn_spinOn (s : State σ) (mode : Mode) (left : Nat) :
    GoesOn raw me s (.spinOn mode left) := by
  cases left with
  | zero => exact goesOn_of_call rfl
  | succ left => exact .of_step (goesOn_of_call rfl)

theorem goesOn_proceed (s : State σ) (rest : List Stage) : GoesOn raw me s (.proceed rest) := by
  cases rest with
  | nil => exact ⟨0, .inl ⟨.unlocked, rfl⟩⟩
  | cons stage rest => exact goesOn_of_call rfl

/-- An acquisition under way goes on to its next call or to its end. -/
theorem Placed.goesOn {spins : Nat} {stages : List Stage} {made : List RawCall} {a : Activity}
    (h : Placed spins stages made a) (raw : Raw σ) (me : Nat) (s : State σ) :
    GoesOn raw me s a := by
  have noting (t : State σ) (stage : Stage) (rest : List Stage) :
      GoesOn raw me t (.noting stage rest) := by
    refine .of_step ?_
    simp only [ReadWrite.step]
    split
    · exact goesOn_spinOn _ _ _
    · exact goesOn_proceed _ _
  cases h with
  | nothing => exact ⟨0, .inl ⟨_, rfl⟩⟩
  | during _ _ h =>
    cases h with
    | trying | retrying | slicing => exact goesOn_of_call rfl
    | counting => exact .of_step (noting _ _ _)
    | noting => exact noting _ _ _
    | spinning => exact .of_step (goesOn_of_call rfl)
    | tallying => exact .of_step (.of_step (goesOn_of_call rfl))
    | waitingOn => exact .of_step (goesOn_of_call rfl)
    | recording => exact ⟨1, .inl ⟨_, rfl⟩⟩
    | acquired => exact ⟨0, .inl ⟨_, rfl⟩⟩

/-- An acquisition that does not end makes any number of calls. -/
theorem exists_calls (stage : Stage) (rest : List Stage) (s : State σ) (k : Nat) :
    ∃ n, (∃ level, (walk raw me n (s, .trying stage rest)).2 = .finished (.acquired level)) ∨
      s.calls.length + k ≤ (walk raw me n (s, .trying stage rest)).1.calls.length := by
  induction k with
  | zero => exact ⟨0, .inr (Nat.le_refl _)⟩
  | succ k ih =>
    obtain ⟨n, ended | many⟩ := ih
    · exact ⟨n, .inl ended⟩
    · obtain ⟨made, -, placed, -⟩ := placed_walk raw me stage rest s n
      obtain ⟨m, more⟩ := placed.goesOn raw me
        (walk raw me n (s, .trying stage rest)).1
      refine ⟨n + m, ?_⟩
      rw [walk_add]
      exact more.imp_right fun further => Nat.lt_of_le_of_lt many further

end Interlock.ReadWrite
