import Interlock.Proofs.ReadWrite.Stages

/-!
# Strategies do what their predicates say

A strategy is described twice: by what it may do (`Strategy.mayBlock`, `Strategy.mayWrite`,
`Strategy.mayFail`) and by the stages in which it is carried out.  Read off its stages, an
acquisition does only what its strategy may do (`Strategy.respects_of_placed`); and whatever the
strategy may do, prepared answers make it do.
-/

namespace Interlock.ReadWrite

namespace Strategy

/-- The stages of a strategy, in their order. -/
def allStages (strategy : Strategy) : List Stage := strategy.stages.1 :: strategy.stages.2

/-- Whether a strategy tries to write before it asks for reading. -/
def isWriteFirst : Strategy → Bool
  | .tryForWritingThenForReading => true
  | .tryForWritingThenTryForReading => true
  | _ => false

theorem mayBlock_iff (strategy : Strategy) :
    strategy.mayBlock = true ↔ ∃ stage ∈ strategy.allStages, stage.waits = true := by
  cases strategy <;> decide

theorem mayWrite_iff (strategy : Strategy) :
    strategy.mayWrite = true ↔ ∃ stage ∈ strategy.allStages, stage.mode = .write := by
  cases strategy <;> decide

theorem mayFail_iff (strategy : Strategy) :
    strategy.mayFail = true ↔ ∀ stage ∈ strategy.allStages, stage.waits = false := by
  cases strategy <;> decide

theorem nodup_modes (strategy : Strategy) : (strategy.allStages.map Stage.mode).Nodup := by
  cases strategy <;> decide

/-- A strategy that tries to write first goes on to read. -/
theorem allStages_of_isWriteFirst {strategy : Strategy} (h : strategy.isWriteFirst = true) :
    ∃ second, strategy.allStages = [⟨.write, false⟩, second] ∧ second.mode = .read := by
  cases strategy with
  | tryForWritingThenForReading | tryForWritingThenTryForReading => exact ⟨_, rfl, rfl⟩
  | _ => cases h

theorem calm_of_isWriteFirst {strategy : Strategy} (h : strategy.isWriteFirst = true) :
    ∀ stage ∈ strategy.allStages, stage.mode = .write → stage.waits = false := by
  cases strategy <;> revert h <;> decide

/-- What the calls of an acquisition, first to last, may be where it stands. -/
structure Respects (strategy : Strategy) (made : List RawCall) (a : Activity) : Prop where
  attempts : ∀ c ∈ made, ∃ mode timed granted, c = .attempt mode timed granted
  level : ∀ level, a = .finished (.acquired level) →
    made.filterMap RawCall.granted? = level.granted
  writeFirst : strategy.isWriteFirst = true → made = [] ∨
    ∃ granted later, made = .attempt .write false granted :: later ∧
      (∀ c ∈ later, c.mode? = some .read) ∧ (later ≠ [] → granted = false)
  blocks : strategy.mayBlock = false →
    (∀ c ∈ made, c.isTimed = false) ∧ (made.filterMap RawCall.mode?).Nodup
  writes : strategy.mayWrite = false → a ≠ .finished (.acquired .write)
  fails : strategy.mayFail = false → a ≠ .finished (.acquired .unlocked)

/-- Wherever an acquisition stands, its calls respect its strategy. -/
theorem respects_of_placed {strategy : Strategy} {spins : Nat} {made : List RawCall} {a : Activity}
    (h : Placed spins strategy.allStages made a) : strategy.Respects made a where
  attempts c hc := by
    obtain ⟨stage, -, timed, granted, rfl, -⟩ := h.makes c hc
    exact ⟨stage.mode, timed, granted, rfl⟩
  level level ended := by
    rcases h.granted with ⟨none, seeking | ⟨nothing, -⟩⟩ | ⟨stage, -, one, recording | acquired⟩
    · simp [ended, Activity.isSeeking] at seeking
    · obtain rfl : level = .unlocked := by simpa [ended] using nothing
      exact none
    · simp [ended] at recording
    · obtain rfl : level = stage.mode.level := by simpa [ended] using acquired
      rw [one, granted_level]
  writeFirst first := by
    obtain ⟨second, stages, reads⟩ := allStages_of_isWriteFirst first
    rw [stages] at h
    rcases h.of_two rfl with rfl | ⟨granted, later, rfl, makes, refused⟩
    · exact .inl rfl
    · refine .inr ⟨granted, later, rfl, fun c hc => ?_, refused⟩
      obtain ⟨timed, _, rfl, -⟩ := makes c hc
      exact congrArg some reads
  blocks calm := by
    have calm' : ∀ p ∈ strategy.allStages, p.waits = false := by
      intro p hp
      by_contra waits
      exact absurd ((mayBlock_iff strategy).2 ⟨p, hp, Bool.not_eq_false _ ▸ waits⟩) (by simp [calm])
    refine ⟨fun c hc => ?_, (h.mode_prefix calm').sublist.nodup (nodup_modes strategy)⟩
    obtain ⟨stage, hstage, timed, granted, rfl, waits⟩ := h.makes c hc
    cases timed with
    | false => rfl
    | true => simp [calm' stage hstage] at waits
  writes reads := by
    rintro rfl
    rcases h.granted with ⟨-, seeking | ⟨nothing, -⟩⟩ | ⟨stage, mem, -, recording | acquired⟩
    · cases seeking
    · cases nothing
    · cases recording
    · have writes : stage.mode = .write := by
        cases hmode : stage.mode with
        | write => rfl
        | read => simp [hmode, Mode.level] at acquired
      exact absurd ((mayWrite_iff strategy).2 ⟨stage, mem, writes⟩) (by simp [reads])
  fails blocks := by
    rintro rfl
    rcases h.granted with ⟨-, seeking | ⟨-, calm⟩⟩ | ⟨stage, -, -, recording | acquired⟩
    · cases seeking
    · exact absurd ((mayFail_iff strategy).2 calm) (by simp [blocks])
    · cases recording
    · simp only [Activity.finished.injEq, Result.acquired.injEq] at acquired
      exact level_ne_unlocked stage.mode acquired.symm

end Strategy

/-! ## Prepared answers -/

section Script

variable {me : Nat} {s : State Script}

theorem calls_of_ended (me : Nat) (op : Operation) (s : State Script) (n : Nat) :
    (walk Script.raw me n (s, op.start)).1.calls <:+ (operate Script.raw me op s).1.calls := by
  obtain ⟨r, ended⟩ := operate_ends me Script.yields op s
  obtain ⟨k, driven⟩ := exists_walk_of_drive Script.raw me
    (fuel Script.raw s) (s, op.start)
  rw [operate, driven] at ended ⊢
  exact calls_suffix_of_finished ended n

/-- With prepared answers, an operation ends as soon as a walk does. -/
theorem operate_of_walk {op : Operation} {n : Nat} {r : Result}
    (ended : (walk Script.raw me n (s, op.start)).2 = .finished r) :
    (operate Script.raw me op s).2 = .finished r := by
  obtain ⟨r', ended'⟩ := operate_ends me Script.yields op s
  obtain ⟨k, driven⟩ := exists_walk_of_drive Script.raw me
    (fuel Script.raw s) (s, op.start)
  rw [operate, driven] at ended' ⊢
  rw [ended', eq_of_finished ended' ended]

/-- While prepared answers refuse, spinning goes on until it turns to slices. -/
theorem exists_slicing_of_spinOn (me : Nat) {mode : Mode} {left : Nat}
    (answers : s.world.get mode false = ⟨[(false, left)]⟩) :
    ∃ n, (walk Script.raw me n (s, .spinOn mode left)).2 = .slicing mode := by
  induction left generalizing s with
  | zero => exact ⟨0, rfl⟩
  | succ left ih =>
    have refused : Script.raw.attempt mode false s.world =
        (false, s.world.set ⟨[(false, left)]⟩ mode false) := by
      simp [Script.raw, Script.next, answers, Answers.next?, Answers.takeFirst]
    obtain ⟨n, slicing⟩ := ih
      (s := (((s.modify (·.countSpin mode)).attempt Script.raw mode false).2))
      (by simp [State.attempt, State.modify, refused])
    refine ⟨n + 2, ?_⟩
    rw [Activity.spinOn, walk_succ, walk_succ]
    simpa [step, State.attempt, State.modify, refused] using slicing

theorem exists_slicing_of_trying (me : Nat) (stage : Stage) (rest : List Stage)
    (waits : stage.waits = true)
    (answers : s.world.get stage.mode false = ⟨[(false, s.lock.spinLimit + 1)]⟩) :
    ∃ n, (walk Script.raw me n (s, .trying stage rest)).2 = .slicing stage.mode := by
  have refused : Script.raw.attempt stage.mode false s.world =
      (false, s.world.set ⟨[(false, s.lock.spinLimit)]⟩ stage.mode false) := by
    simp [Script.raw, Script.next, answers, Answers.next?, Answers.takeFirst]
  have left : (((s.attempt Script.raw stage.mode false).2.modify (·.countBusy stage.mode)).note
      (stage.mode.name ++ " busy")).world.get stage.mode false = ⟨[(false, s.lock.spinLimit)]⟩ := by
    simp [State.attempt, State.modify, State.note, refused]
  obtain ⟨n, slicing⟩ := exists_slicing_of_spinOn me left
  refine ⟨n + 3, ?_⟩
  rw [walk_succ, walk_succ, walk_succ]
  simpa [step, State.attempt, State.modify, refused, waits, countBusy] using slicing

/-- Prepared answers that refuse one attempt more than the lock may spin, in either mode. -/
def Script.obstinate (spins : Nat) : Script where
  shared := ⟨[(false, spins + 1)]⟩
  exclusive := ⟨[(false, spins + 1)]⟩

/-- A strategy that may block waits for a slice, if the raw lock refuses all that it tries
before. -/
theorem exists_slicing {strategy : Strategy} (h : strategy.mayBlock = true) (me : Nat)
    (lock : ReadWrite) :
    ∃ n mode, (walk Script.raw me n ({ lock, world := .obstinate lock.spinLimit },
      (Operation.acquire strategy).start)).2 = .slicing mode := by
  cases strategy with
  | forReading =>
    obtain ⟨n, slicing⟩ := exists_slicing_of_trying me ⟨.read, true⟩ []
      (s := { lock, world := .obstinate lock.spinLimit }) rfl rfl
    exact ⟨n, .read, slicing⟩
  | forWriting =>
    obtain ⟨n, slicing⟩ := exists_slicing_of_trying me ⟨.write, true⟩ []
      (s := { lock, world := .obstinate lock.spinLimit }) rfl rfl
    exact ⟨n, .write, slicing⟩
  | tryForWritingThenForReading =>
    -- three steps lead past the refused attempt to write
    obtain ⟨n, slicing⟩ := exists_slicing_of_trying me ⟨.read, true⟩ []
      (s := (walk Script.raw me 3 ({ lock, world := .obstinate lock.spinLimit },
        (Operation.acquire .tryForWritingThenForReading).start)).1) rfl rfl
    refine ⟨3 + n, .read, ?_⟩
    rw [walk_add]
    exact slicing
  | _ => cases h

/-- A strategy that may block makes a timed call under some answers. -/
theorem exists_timed {strategy : Strategy} (h : strategy.mayBlock = true) (me : Nat)
    (lock : ReadWrite) :
    ∃ c ∈ (operate Script.raw me (.acquire strategy)
      { lock, world := .obstinate lock.spinLimit }).1.calls, c.isTimed = true := by
  obtain ⟨n, mode, slicing⟩ := exists_slicing h me lock
  have next := calls_of_ended me (.acquire strategy) { lock, world := .obstinate lock.spinLimit }
    (n + 1)
  rw [walk_succ', slicing, step_calls] at next
  exact ⟨_, next.subset List.mem_cons_self, rfl⟩

/-- A strategy that may write does so under some answers. -/
theorem ends_writing {strategy : Strategy} (h : strategy.mayWrite = true) (me : Nat)
    (lock : ReadWrite) :
    (operate Script.raw me (.acquire strategy) { lock, world := {} }).2 =
      .finished (.acquired .write) := by
  have ended : (walk Script.raw me 2 ({ lock, world := {} },
      (Operation.acquire strategy).start)).2 = .finished (.acquired .write) := by
    cases strategy with
    | forReading | tryForReading => cases h
    | _ => rfl
  exact operate_of_walk ended

/-- A strategy that may fail does so under some answers. -/
theorem ends_unlocked {strategy : Strategy} (h : strategy.mayFail = true) (me : Nat)
    (lock : ReadWrite) :
    (operate Script.raw me (.acquire strategy) { lock, world := .obstinate 0 }).2 =
      .finished (.acquired .unlocked) := by
  have ended : (walk Script.raw me 6 ({ lock, world := .obstinate 0 },
      (Operation.acquire strategy).start)).2 = .finished (.acquired .unlocked) := by
    cases strategy with
    | forReading | forWriting | tryForWritingThenForReading => cases h
    | _ => rfl
  exact operate_of_walk ended

end Script

/-! ## The strategies and their predicates -/

/-- Where an acquisition stands after so many steps. -/
def acquiring {σ : Type} (raw : Raw σ) (me : Nat) (strategy : Strategy) (s : State σ) (n : Nat) :
    State σ × Activity :=
  walk raw me n (s, (Operation.acquire strategy).start)

theorem exists_acquiring {σ : Type} (raw : Raw σ) (me : Nat) (strategy : Strategy) (s : State σ) :
    ∃ n, operate raw me (.acquire strategy) s = acquiring raw me strategy s n :=
  exists_walk_of_drive raw me (fuel raw s) _

/-- At each of its steps an acquisition has respected its strategy. -/
theorem respects_acquiring {σ : Type} (raw : Raw σ) (me : Nat) (strategy : Strategy) (s : State σ)
    (n : Nat) :
    ∃ made, s.Since (acquiring raw me strategy s n).1 made ∧
      strategy.Respects made (acquiring raw me strategy s n).2 ∧
      ∀ mode ∈ made.filterMap RawCall.granted?,
        (acquiring raw me strategy s (n + 1)).2 = .finished (.acquired mode.level) := by
  obtain ⟨made, since, placed, -⟩ := placed_walk raw me strategy.stages.1 strategy.stages.2 s n
  refine ⟨made, since, Strategy.respects_of_placed placed, fun mode hmode => ?_⟩
  rw [acquiring, walk_succ', Operation.start]
  -- what was granted is recorded in the next step, or has been recorded already
  rcases placed.granted with ⟨none, -⟩ | ⟨stage, -, one, recording | acquired⟩
  · simp [none] at hmode
  · obtain rfl : mode = stage.mode := by simpa [one] using hmode
    rw [recording]
    rfl
  · obtain rfl : mode = stage.mode := by simpa [one] using hmode
    rw [acquired]
    rfl

/-- An acquisition respects its strategy. -/
theorem respects_operate {σ : Type} (raw : Raw σ) (me : Nat) (strategy : Strategy) (s : State σ) :
    ∃ made, s.Since (operate raw me (.acquire strategy) s).1 made ∧
      strategy.Respects made (operate raw me (.acquire strategy) s).2 := by
  obtain ⟨n, driven⟩ := exists_acquiring raw me strategy s
  obtain ⟨made, since, respects, -⟩ := respects_acquiring raw me strategy s n
  rw [driven]
  exact ⟨made, since, respects⟩

/-- **Strategies do what their predicates say.**  Whatever the raw lock answers, at every point of
an acquisition its attempts and the level that it ends with are what its strategy may do
(`Strategy.Respects`); a granted attempt ends it at once, with the level of its mode; an acquisition
that does not end makes ever more attempts; and one that tries to write first counts no spins for
writing.  With prepared answers, a strategy ends in the write lock for some exactly when it may
write, with nothing for some exactly when it may fail, and makes a timed attempt for some exactly
when it may block, whatever the spin limit. -/
theorem Strategy.agrees (strategy : Strategy) (me : Nat) :
    (∀ {σ : Type} (raw : Raw σ) (s : State σ),
      (∃ n, operate raw me (.acquire strategy) s = acquiring raw me strategy s n) ∧
      (∀ n, ∃ made, s.Since (acquiring raw me strategy s n).1 made ∧
        strategy.Respects made (acquiring raw me strategy s n).2 ∧
        (∀ mode ∈ made.filterMap RawCall.granted?,
          (acquiring raw me strategy s (n + 1)).2 = .finished (.acquired mode.level)) ∧
        (strategy.isWriteFirst = true →
          (acquiring raw me strategy s n).1.lock.writing.spin = s.lock.writing.spin)) ∧
      ∀ k, ∃ n,
        (∃ level, (acquiring raw me strategy s n).2 = .finished (.acquired level)) ∨
          s.calls.length + k ≤ (acquiring raw me strategy s n).1.calls.length) ∧
    ∀ lock : ReadWrite,
      ((∃ script, (operate Script.raw me (.acquire strategy) { lock, world := script }).2 =
        .finished (.acquired .write)) ↔ strategy.mayWrite = true) ∧
      ((∃ script, (operate Script.raw me (.acquire strategy) { lock, world := script }).2 =
        .finished (.acquired .unlocked)) ↔ strategy.mayFail = true) ∧
      ((∃ script, ∃ c ∈ (operate Script.raw me (.acquire strategy)
        { lock, world := script }).1.calls, c.isTimed = true) ↔ strategy.mayBlock = true) := by
  refine ⟨fun raw s => ⟨exists_acquiring raw me strategy s, fun n => ?_, exists_calls _ _ s⟩,
    fun lock => ⟨⟨?_, fun writes => ?_⟩, ⟨?_, fun fails => ?_⟩, ⟨?_, fun blocks => ?_⟩⟩⟩
  · obtain ⟨made, since, respects, grants⟩ := respects_acquiring raw me strategy s n
    exact ⟨made, since, respects, grants, fun first => spin_walk (calm_of_isWriteFirst first) s n⟩
  · rintro ⟨script, ended⟩
    obtain ⟨made, -, respects⟩ := respects_operate Script.raw me strategy { lock, world := script }
    exact Bool.not_eq_false _ ▸ fun never => respects.writes never ended
  · exact ⟨_, ends_writing writes me lock⟩
  · rintro ⟨script, ended⟩
    obtain ⟨made, -, respects⟩ := respects_operate Script.raw me strategy { lock, world := script }
    exact Bool.not_eq_false _ ▸ fun never => respects.fails never ended
  · exact ⟨_, ends_unlocked fails me lock⟩
  · rintro ⟨script, c, hc, timed⟩
    obtain ⟨made, since, respects⟩ := respects_operate Script.raw me strategy
      { lock, world := script }
    unfold State.Since at since
    have hmade : c ∈ made := by simpa [since] using hc
    exact Bool.not_eq_false _ ▸ fun never => by simp [(respects.blocks never).1 c hmade] at timed
  · obtain ⟨c, hc, timed⟩ := exists_timed blocks me lock
    exact ⟨_, c, hc, timed⟩

/-- A lock that may spin once and is refused twice in either mode: the attempt to write is made
once, and reading is granted in the first slice. -/
theorem agrees_of_obstinate :
    let s : State Script := { lock := { spinLimit := 1 }, world := .obstinate 1 }
    let c := operate Script.raw 1 (.acquire .tryForWritingThenForReading) s
    c.2 = .finished (.acquired .read) ∧
      c.1.calls = [.attempt .read true true, .attempt .read false false,
        .attempt .read false false, .attempt .write false false] ∧
      ∃ made, s.Since c.1 made ∧ Strategy.Respects .tryForWritingThenForReading made c.2 := by
  intro s c
  have all := (Strategy.agrees .tryForWritingThenForReading 1).1 Script.raw s
  obtain ⟨n, driven⟩ := all.1
  obtain ⟨made, since, respects, -⟩ := all.2.1 n
  refine ⟨by decide, by decide, made, ?_⟩
  rw [← driven] at since respects
  exact ⟨since, respects⟩

end Interlock.ReadWrite
