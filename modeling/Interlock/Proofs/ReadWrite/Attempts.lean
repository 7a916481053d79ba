import Interlock.Proofs.ReadWrite.Alone
import Mathlib.Logic.Function.Iterate

/-!
# The attempts that an acquisition makes

An acquisition can go on for ever, so it is followed here step by step (`walk`), whatever the raw
lock answers and without regard to whether it keeps its callers waiting.  Where a thread stands in
an acquisition tells which attempts it has made so far, in which order and with which answers
(`Placed`): each stage that is behind it made a single attempt, at once and in vain, and the stage
that it is in made what `During` says.  Every step keeps that (`Placed.step`), so it holds at every
point of every acquisition (`placed_walk`).
-/

namespace Interlock.ReadWrite

variable {σ : Type} {raw : Raw σ} {me : Nat}

/-! ## Walking -/

/-- A thread that takes so many steps, even where it would wait for another one. -/
def walk (raw : Raw σ) (me n : Nat) (c : State σ × Activity) : State σ × Activity :=
  (fun c => step raw me c.1 c.2)^[n] c

theorem walk_succ (n : Nat) (s : State σ) (a : Activity) :
    walk raw me (n + 1) (s, a) = walk raw me n (step raw me s a) :=
  Function.iterate_succ_apply _ n (s, a)

theorem walk_succ' (n : Nat) (c : State σ × Activity) :
    walk raw me (n + 1) c = step raw me (walk raw me n c).1 (walk raw me n c).2 :=
  Function.iterate_succ_apply' _ n c

theorem walk_add (n k : Nat) (c : State σ × Activity) :
    walk raw me (n + k) c = walk raw me k (walk raw me n c) := by
  rw [Nat.add_comm]
  exact Function.iterate_add_apply _ k n c

/-- An operation that is over stays so. -/
theorem walk_finished (n : Nat) (s : State σ) (r : Result) :
    walk raw me n (s, .finished r) = (s, .finished r) := by
  induction n with
  | zero => rfl
  | succ n ih => exact (walk_succ n s _).trans ih

/-- A thread that is driven on walks. -/
theorem exists_walk_of_drive (raw : Raw σ) (me n : Nat) (c : State σ × Activity) :
    ∃ k, drive raw me n c = walk raw me k c := by
  induction n generalizing c with
  | zero => exact ⟨0, rfl⟩
  | succ n ih =>
    simp only [drive]
    split
    · exact ⟨0, rfl⟩
    · obtain ⟨k, hk⟩ := ih (step raw me c.1 c.2)
      exact ⟨k + 1, hk.trans (walk_succ k c.1 c.2).symm⟩

theorem calls_suffix_step (raw : Raw σ) (me : Nat) (s : State σ) (a : Activity) :
    s.calls <:+ (step raw me s a).1.calls :=
  ⟨_, (step_calls raw me s a).symm⟩

theorem calls_suffix_walk (n : Nat) (c : State σ × Activity) :
    c.1.calls <:+ (walk raw me n c).1.calls := by
  induction n with
  | zero => exact List.suffix_refl _
  | succ n ih =>
    rw [walk_succ']
    exact ih.trans (calls_suffix_step raw me _ _)

/-- An operation that has ended stands still. -/
theorem walk_add_of_finished {n : Nat} {c : State σ × Activity} {r : Result}
    (ended : (walk raw me n c).2 = .finished r) (k : Nat) :
    walk raw me (n + k) c = walk raw me n c := by
  have still : walk raw me n c = ((walk raw me n c).1, .finished r) := Prod.ext rfl ended
  rw [walk_add, still, walk_finished]

/-- An operation that has ended made every call that it makes on the way. -/
theorem calls_suffix_of_finished {n : Nat} {c : State σ × Activity} {r : Result}
    (ended : (walk raw me n c).2 = .finished r) (k : Nat) :
    (walk raw me k c).1.calls <:+ (walk raw me n c).1.calls := by
  rcases Nat.le_total k n with earlier | later
  · obtain ⟨j, rfl⟩ := Nat.exists_eq_add_of_le earlier
    rw [walk_add]
    exact calls_suffix_walk j _
  · obtain ⟨j, rfl⟩ := Nat.exists_eq_add_of_le later
    simp [walk_add_of_finished ended]

/-- An operation has one end. -/
theorem eq_of_finished {n k : Nat} {c : State σ × Activity} {r r' : Result}
    (ended : (walk raw me n c).2 = .finished r) (ended' : (walk raw me k c).2 = .finished r') :
    r = r' := by
  rcases Nat.le_total n k with earlier | later
  · obtain ⟨j, rfl⟩ := Nat.exists_eq_add_of_le earlier
    rw [walk_add_of_finished ended, ended] at ended'
    exact Activity.finished.inj ended'
  · obtain ⟨j, rfl⟩ := Nat.exists_eq_add_of_le later
    rw [walk_add_of_finished ended', ended'] at ended
    exact (Activity.finished.inj ended).symm

/-- No step changes how long an operation may spin. -/
theorem step_spinLimit (s : State σ) (a : Activity) :
    (step raw me s a).1.lock.spinLimit = s.lock.spinLimit := by
  cases a with
  | trying stage rest =>
    rcases h : raw.attempt stage.mode false s.world with ⟨_ | _, w⟩ <;>
      simp [step, State.attempt, h]
  | retrying mode left =>
    rcases h : raw.attempt mode false s.world with ⟨_ | _, w⟩ <;> simp [step, State.attempt, h]
  | slicing mode =>
    rcases h : raw.attempt mode true s.world with ⟨_ | _, w⟩ <;> simp [step, State.attempt, h]
  | counting stage | spinning mode | tallying mode => exact updateTally_spinLimit _ _ _
  | noting stage rest => simp only [step]; split <;> rfl
  | recording mode => cases mode <;> rfl
  | releasing | checking => simp only [step]; split <;> rfl
  | leaving => simp only [step]; split <;> rfl
  | _ => rfl

/-! ## Attempts within a stage -/

/-- So many attempts in vain. -/
def refused (mode : Mode) (timed : Bool) (n : Nat) : List RawCall :=
  List.replicate n (.attempt mode timed false)

theorem refused_append_one (mode : Mode) (timed : Bool) (n : Nat) :
    refused mode timed n ++ [.attempt mode timed false] = refused mode timed (n + 1) :=
  List.replicate_succ'.symm

/-- The attempts of a stage that waits, before its next slice: the first one, those that it may
spin, and so many slices. -/
def waited (spins : Nat) (mode : Mode) (slices : Nat) : List RawCall :=
  refused mode false (spins + 1) ++ refused mode true slices

theorem waited_append_one (spins : Nat) (mode : Mode) (slices : Nat) :
    waited spins mode slices ++ [.attempt mode true false] = waited spins mode (slices + 1) := by
  rw [waited, List.append_assoc, refused_append_one, waited]

/-- The attempt of a stage that gave up. -/
def Stage.refusal (stage : Stage) : RawCall := .attempt stage.mode false false

/-- The attempts of a stage that was granted, first to last: the grant is the last of them, and
those before it were made as far as the stage waits. -/
inductive Won (spins : Nat) (stage : Stage) : List RawCall → Prop where
  | atOnce {tries : Nat} (few : 0 < tries → stage.waits = true ∧ tries ≤ spins) :
      Won spins stage (refused stage.mode false tries ++ [.attempt stage.mode false true])
  | inTime {slices : Nat} (waits : stage.waits = true) :
      Won spins stage (waited spins stage.mode slices ++ [.attempt stage.mode true true])

/-- The attempts that a stage has made where a thread stands, first to last. -/
inductive During (spins : Nat) (stage : Stage) (rest : List Stage) :
    List RawCall → Activity → Prop where
  | trying : During spins stage rest [] (.trying stage rest)
  | counting : During spins stage rest [stage.refusal] (.counting stage rest)
  | noting : During spins stage rest [stage.refusal] (.noting stage rest)
  | spinning {tries left : Nat} (waits : stage.waits = true) (first : 0 < tries)
      (all : tries + left = spins) :
      During spins stage rest (refused stage.mode false tries) (.spinning stage.mode left)
  | retrying {tries left : Nat} (waits : stage.waits = true) (first : 0 < tries)
      (all : tries + left = spins) :
      During spins stage rest (refused stage.mode false tries) (.retrying stage.mode left)
  | slicing {slices : Nat} (waits : stage.waits = true) :
      During spins stage rest (waited spins stage.mode slices) (.slicing stage.mode)
  | tallying {slices : Nat} (waits : stage.waits = true) :
      During spins stage rest (waited spins stage.mode slices) (.tallying stage.mode)
  | waitingOn {slices : Nat} (waits : stage.waits = true) :
      During spins stage rest (waited spins stage.mode slices) (.waitingOn stage.mode)
  | recording {made : List RawCall} (won : Won spins stage made) :
      During spins stage rest made (.recording stage.mode)
  | acquired {made : List RawCall} (won : Won spins stage made) :
      During spins stage rest made (.finished (.acquired stage.mode.level))

section During

variable {spins : Nat} {stage : Stage} {rest : List Stage} {made : List RawCall} {s : State σ}
  {a : Activity}

/-- After the attempts at once that were made so far, a stage spins on or turns to slices. -/
theorem during_spinOn (waits : stage.waits = true) {tries left : Nat} (first : 0 < tries)
    (all : tries + left = spins + 1) :
    During spins stage rest (refused stage.mode false tries) (.spinOn stage.mode left) := by
  cases left with
  | zero =>
    have every : refused stage.mode false tries = waited spins stage.mode 0 := by
      rw [show tries = spins + 1 by omega]
      exact (List.append_nil _).symm
    rw [every]
    exact .slicing waits
  | succ left => exact .spinning waits first (by omega)

/-- A step goes on within the stage, unless the stage gives up. -/
theorem During.step (raw : Raw σ) (me : Nat) (h : During spins stage rest made a)
    (limit : s.lock.spinLimit = spins) :
    During spins stage rest (made ++ (a.call? raw s.world).toList) (step raw me s a).2 ∨
      stage.waits = false ∧ made ++ (a.call? raw s.world).toList = [stage.refusal] ∧
        (ReadWrite.step raw me s a).2 = .proceed rest := by
  cases h with
  | trying =>
    left
    rcases answer : raw.attempt stage.mode false s.world with ⟨_ | _, w⟩
    · simp only [ReadWrite.step, State.attempt, Activity.call?, answer]
      exact .counting
    · simp only [ReadWrite.step, State.attempt, Activity.call?, answer]
      exact .recording (@Won.atOnce _ _ 0 (absurd · (Nat.lt_irrefl 0)))
  | counting => exact .inl .noting
  | noting =>
    by_cases waits : stage.waits = true
    · left
      simp only [ReadWrite.step, waits, ↓reduceIte, limit]
      exact during_spinOn waits Nat.one_pos (Nat.add_comm 1 spins)
    · right
      refine ⟨Bool.not_eq_true _ ▸ waits, rfl, ?_⟩
      simp only [ReadWrite.step, waits]
      rfl
  | spinning waits first all =>
    left
    simpa [ReadWrite.step, Activity.call?] using During.retrying waits first all
  | @retrying tries left waits first all =>
    left
    rcases answer : raw.attempt stage.mode false s.world with ⟨_ | _, w⟩
    · simp only [ReadWrite.step, State.attempt, Activity.call?, answer, Option.toList_some,
        refused_append_one]
      exact during_spinOn waits (Nat.succ_pos tries) (by omega)
    · simp only [ReadWrite.step, State.attempt, Activity.call?, answer]
      exact .recording (.atOnce fun _ => ⟨waits, by omega⟩)
  | slicing waits =>
    left
    rcases answer : raw.attempt stage.mode true s.world with ⟨_ | _, w⟩
    · simp only [ReadWrite.step, State.attempt, Activity.call?, answer, Option.toList_some,
        waited_append_one]
      exact .tallying waits
    · simp only [ReadWrite.step, State.attempt, Activity.call?, answer]
      exact .recording (.inTime waits)
  | tallying waits =>
    left
    simpa [ReadWrite.step, Activity.call?] using During.waitingOn waits
  | waitingOn waits =>
    left
    simpa [ReadWrite.step, Activity.call?] using During.slicing waits
  | recording won =>
    left
    simpa [ReadWrite.step, Activity.call?] using During.acquired won
  | acquired won =>
    left
    simpa [ReadWrite.step, Activity.call?] using During.acquired won

end During

/-! ## Attempts over all stages -/

/-- The attempts that an acquisition by these stages has made where a thread stands, first to
last. -/
inductive Placed (spins : Nat) (stages : List Stage) : List RawCall → Activity → Prop where
  | during {passed rest : List Stage} {stage : Stage} {made : List RawCall} {a : Activity}
      (split : stages = passed ++ stage :: rest) (gaveUp : ∀ p ∈ passed, p.waits = false)
      (h : During spins stage rest made a) :
      Placed spins stages (passed.map Stage.refusal ++ made) a
  | nothing (gaveUp : ∀ p ∈ stages, p.waits = false) :
      Placed spins stages (stages.map Stage.refusal) (.finished (.acquired .unlocked))

/-- An acquisition under way is placed among its stages after every step. -/
theorem Placed.step (raw : Raw σ) (me : Nat) {spins : Nat} {stages : List Stage}
    {made : List RawCall} {s : State σ} {a : Activity} (h : Placed spins stages made a)
    (limit : s.lock.spinLimit = spins) :
    Placed spins stages (made ++ (a.call? raw s.world).toList) (step raw me s a).2 := by
  cases h with
  | nothing gaveUp =>
    rw [show ((Activity.finished (.acquired .unlocked)).call? raw s.world).toList = [] from rfl,
      List.append_nil]
    exact .nothing gaveUp
  | @during passed rest stage made a split gaveUp h =>
    rw [List.append_assoc]
    rcases h.step raw me limit with within | ⟨waits, refusal, next⟩
    · exact .during split gaveUp within
    · -- the stage gave up, and so joins those that are behind
      rw [refusal, next]
      have gaveUp' : ∀ p ∈ passed ++ [stage], p.waits = false := by
        intro p hp
        rcases List.mem_append.1 hp with hp | hp
        · exact gaveUp p hp
        · rw [List.mem_singleton.1 hp]
          exact waits
      have behind : passed.map Stage.refusal ++ [stage.refusal] =
          (passed ++ [stage]).map Stage.refusal := by simp
      cases rest with
      | nil =>
        subst split
        rw [behind]
        exact .nothing gaveUp'
      | cons following rest =>
        have placed := Placed.during (split.trans (by simp)) gaveUp'
          (@During.trying spins following rest)
        rw [List.append_nil, ← behind] at placed
        exact placed

/-- The calls that were made from `s` to `t`, first to last. -/
def State.Since (s t : State σ) (made : List RawCall) : Prop :=
  t.calls = made.reverse ++ s.calls

/-- A step adds its call to those since a state. -/
theorem State.Since.step {s t : State σ} {made : List RawCall} (h : s.Since t made)
    (a : Activity) :
    s.Since (ReadWrite.step raw me t a).1 (made ++ (a.call? raw t.world).toList) := by
  have single : ∀ o : Option RawCall, o.toList.reverse = o.toList := by
    intro o
    cases o <;> rfl
  rw [Since, step_calls, h, List.reverse_append, single, List.append_assoc]

/-- At every point of an acquisition, the attempts made so far are those that its stages call for
there. -/
theorem placed_walk (raw : Raw σ) (me : Nat) (stage : Stage) (rest : List Stage) (s : State σ)
    (n : Nat) :
    ∃ made, s.Since (walk raw me n (s, .trying stage rest)).1 made ∧
      Placed s.lock.spinLimit (stage :: rest) made (walk raw me n (s, .trying stage rest)).2 ∧
      (walk raw me n (s, .trying stage rest)).1.lock.spinLimit = s.lock.spinLimit := by
  induction n with
  | zero =>
    have start : Placed s.lock.spinLimit ([] ++ stage :: rest) ([].map Stage.refusal ++ []) _ :=
      .during rfl (List.forall_mem_nil _) (@During.trying _ stage rest)
    exact ⟨[], rfl, start, rfl⟩
  | succ n ih =>
    obtain ⟨made, since, placed, limit⟩ := ih
    rw [walk_succ']
    exact ⟨_, since.step _, placed.step raw me limit, (step_spinLimit _ _).trans limit⟩

end Interlock.ReadWrite
