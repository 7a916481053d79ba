import Interlock.Parking.Condvar
import Interlock.Parking.Futex
import Mathlib.Tactic.Common

/-!
# Parking one at a time

As long as no two threads park at once, a parking place of either kind is told by its history: a
list of `Turn`s, each a parking call with what happens in its sleep, or a signal sent between two of
them.  A parking call leaves the place as it found it, but for a signal that was pending
(`Futex.Solo.parks`), and nobody hears a signal that was sent between two calls.  If the kernel
speaks of a wake-up only when there was one, both kinds of place give the same answers, and the
history alone tells which (`heard`).  A turn is no other thing than a run of the system in which
threads interleave step by step (`Futex.Solo.run_moves`, `Condvar.Solo.run_moves`).
-/

namespace Interlock.Parking

/-- What happens at a parking place where no two threads park at once. -/
inductive Turn where
  /-- A thread parks; this is what happens in its sleep, if it falls asleep. -/
  | park (timeout : Option Duration) (sleep : Sleep)
  /-- A thread signals while nobody is parked. -/
  | wake (signal : Signal)
  deriving DecidableEq, Repr, Inhabited

/-- What the parking calls of a history should answer: whether a signal came in their sleep. -/
def heard : List Turn → List Bool
  | [] => []
  | .park _ sleep :: turns => (!sleep.during.isEmpty) :: heard turns
  | .wake _ :: turns => heard turns

/-- A sleep ends by a signal only if there was one. -/
def Turn.IsHonest : Turn → Prop
  | .park _ sleep => sleep.ending = .woken → sleep.during ≠ []
  | .wake _ => True

instance : DecidablePred Turn.IsHonest
  | .park _ sleep => inferInstanceAs (Decidable (sleep.ending = .woken → sleep.during ≠ []))
  | .wake _ => inferInstanceAs (Decidable True)

/-! ## On a futex -/

namespace Futex

/-- Whether a call asks the kernel for a sleep. -/
def Call.isWait : Call → Bool
  | .wait _ _ => true
  | .wake _ _ => false

namespace Solo

/-- The place after a turn. -/
def turn (s : Solo) : Turn → Solo
  | .park timeout sleep => (s.park timeout (some sleep)).2
  | .wake signal => s.wake signal

/-- The place after a history. -/
def after (s : Solo) (turns : List Turn) : Solo := turns.foldl turn s

/-- The answers of the parking calls of a history. -/
def answers (s : Solo) : List Turn → List Bool
  | [] => []
  | .park timeout sleep :: turns =>
    (s.park timeout (some sleep)).1 :: (s.turn (.park timeout sleep)).answers turns
  | .wake signal :: turns => (s.turn (.wake signal)).answers turns

/-- The place when the sleep of a parking call is over, before the call looks at the word again. -/
def slept (s : Solo) (timeout : Option Duration) (sleep : Sleep) : Solo :=
  (Solo.sleep timeout (some sleep) { s with shared := ⟨0, s.shared.parked + 1⟩ }).2

variable (s : Solo) (signal : Signal) (timeout : Option Duration) (sleep : Sleep)

/-- A signal that finds nobody parked leaves no trace. -/
theorem wake_of_nobody (nobody : s.shared.parked = 0) : s.wake signal = s := by
  simp only [wake, stepWake, nobody, ↓reduceIte]

theorem wake_of_parked (parked : s.shared.parked ≠ 0) :
    s.wake signal =
      { s with
        shared := ⟨1, s.shared.parked⟩
        calls := .wake 1 (wakeCount signal) :: s.calls } := by
  simp only [wake, stepWake, parked, ↓reduceIte]

/-- Signals to somebody who is parked stay in the word. -/
theorem wakes_of_parked (parked : s.shared.parked ≠ 0) (signals : List Signal) :
    signals.foldl (fun s signal => s.wake signal) s =
      { s with
        shared := ⟨if signals = [] then s.shared.word else 1, s.shared.parked⟩
        calls :=
          (signals.map fun signal => Call.wake 1 (wakeCount signal)).reverse ++ s.calls } := by
  induction signals generalizing s with
  | nil => rfl
  | cons signal signals ih =>
    have still : (s.wake signal).shared.parked ≠ 0 := by
      rw [wake_of_parked s signal parked]
      exact parked
    rw [List.foldl_cons, ih _ still, wake_of_parked s signal parked]
    simp

theorem slept_eq :
    s.slept timeout sleep =
      { s with
        shared := ⟨if sleep.during = [] then 0 else 1, s.shared.parked + 1⟩
        calls := (sleep.during.map fun signal => Call.wake 1 (wakeCount signal)).reverse ++
          .wait 0 (timeout.map (·.toTimespec)) :: s.calls
        seen := (s.shared.parked + 1) :: s.seen } :=
  wakes_of_parked _ (Nat.succ_ne_zero _) sleep.during

/-- A call that finds a pending signal takes it and does not sleep. -/
theorem park_of_pending (pending : s.shared.word ≠ 0) :
    s.park timeout (some sleep) = (true, { s with shared := { s.shared with word := 0 } }) := by
  simp only [park, stepPark, pending, ne_eq, not_false_eq_true, ↓reduceIte, Nat.add_sub_cancel]

/-- A call that finds none sleeps, and takes the signal that it finds in the word then. -/
theorem park_of_clear (clear : s.shared.word = 0) :
    s.park timeout (some sleep) =
      ((s.slept timeout sleep).shared.word ≠ 0 || sleep.ending = .woken,
        { s.slept timeout sleep with
          shared := ⟨0, s.shared.parked⟩
          log := (warnings sleep.ending).reverse ++ s.log }) := by
  have asleep : Solo.sleep timeout (some sleep) { s with shared := ⟨0, s.shared.parked + 1⟩ } =
      (sleep.ending, s.slept timeout sleep) := rfl
  simp only [park, stepPark, clear, ne_eq, not_true_eq_false, ↓reduceIte, asleep]
  simp [slept_eq]

/-- What a parking call answers, asks of the kernel and leaves behind. -/
structure Parks : Prop where
  answers : (s.park timeout (some sleep)).1 = true ↔ s.shared.word ≠ 0 ∨
    s.shared.word = 0 ∧
      (sleep.ending = .woken ∨ (s.slept timeout sleep).shared.word ≠ 0)
  asks : (s.park timeout (some sleep)).2.calls.filter (·.isWait) =
    (if s.shared.word = 0 then [.wait 0 (timeout.map (·.toTimespec))] else []) ++
      s.calls.filter (·.isWait)
  word : (s.park timeout (some sleep)).2.shared.word = 0
  parked : (s.park timeout (some sleep)).2.shared.parked = s.shared.parked

theorem parks : s.Parks timeout sleep := by
  by_cases clear : s.shared.word = 0
  · have wakes : (sleep.during.map fun signal => Call.wake 1 (wakeCount signal)).reverse.filter
        (·.isWait) = [] := by simp [Call.isWait]
    refine ⟨?_, ?_, ?_, ?_⟩ <;> rw [park_of_clear s timeout sleep clear]
    · simp [clear, or_comm]
    · simp only [slept_eq, List.filter_append, wakes, clear, ↓reduceIte, List.nil_append]
      rfl
  · refine ⟨?_, ?_, ?_, ?_⟩ <;> rw [park_of_pending s timeout sleep clear]
    · simp [clear]
    · simp [clear]

theorem parked_after (turns : List Turn) : (s.after turns).shared.parked = s.shared.parked := by
  induction turns generalizing s with
  | nil => rfl
  | cons turn turns ih =>
    refine (ih (s.turn turn)).trans ?_
    cases turn with
    | park timeout sleep => exact (s.parks timeout sleep).parked
    | wake signal =>
      by_cases nobody : s.shared.parked = 0
      · rw [turn, wake_of_nobody s signal nobody]
      · rw [turn, wake_of_parked s signal nobody]

/-- Between two calls at a fresh place nobody is parked and no signal is pending. -/
theorem answers_eq_heard (clear : s.shared = {}) {turns : List Turn}
    (honest : ∀ turn ∈ turns, turn.IsHonest) : s.answers turns = heard turns := by
  induction turns generalizing s with
  | nil => rfl
  | cons turn turns ih =>
    obtain ⟨first, later⟩ := List.forall_mem_cons.1 honest
    cases turn with
    | wake signal =>
      have unmoved : s.turn (.wake signal) = s := wake_of_nobody s signal (by rw [clear])
      rw [answers, heard, unmoved, ih s clear later]
    | park timeout sleep =>
      have law := s.parks timeout sleep
      have place : (s.turn (.park timeout sleep)).shared = {} := by
        have parked := law.parked
        rw [clear] at parked
        exact congr (congrArg Futex.mk law.word) parked
      have word : (s.slept timeout sleep).shared.word ≠ 0 ↔ sleep.during ≠ [] := by
        rw [slept_eq]
        by_cases silent : sleep.during = [] <;> simp [silent]
      have answer : (s.park timeout (some sleep)).1 = !sleep.during.isEmpty := by
        rw [Bool.eq_iff_iff, law.answers, word]
        simp only [clear, ne_eq, not_true_eq_false, true_and, false_or, Bool.not_eq_eq_eq_not,
          Bool.not_true, List.isEmpty_eq_false_iff]
        exact ⟨fun h => h.elim first id, .inr⟩
      rw [answers, heard, answer, ih _ place later]

end Solo

end Futex

/-! ## On a condition variable -/

namespace Condvar.Solo

/-- The place after a turn. -/
def turn (s : Solo) : Turn → Solo
  | .park timeout sleep => (s.park timeout (some sleep)).2
  | .wake signal => s.wake signal

/-- The answers of the parking calls of a history; there is none if a sleep never ends. -/
def answers (s : Solo) : List Turn → List (Option Bool)
  | [] => []
  | .park timeout sleep :: turns =>
    (s.park timeout (some sleep)).1 :: (s.turn (.park timeout sleep)).answers turns
  | .wake signal :: turns => (s.turn (.wake signal)).answers turns

variable (s : Solo) (signal : Signal) (timeout : Option Duration) (sleep : Sleep)

theorem wake_of_nobody (nobody : s.shared.parked = 0) : s.wake signal = s := by
  simp only [wake, Condvar.signal, nobody, ↓reduceIte]

/-- Signals to somebody who is parked stay in the flag. -/
theorem shared_wakes (parked : s.shared.parked ≠ 0) (signals : List Signal) :
    (signals.foldl (fun s signal => s.wake signal) s).shared =
      ⟨s.shared.pending || !signals.isEmpty, s.shared.parked⟩ := by
  induction signals generalizing s with
  | nil => simp
  | cons signal signals ih =>
    have first : (s.wake signal).shared = ⟨true, s.shared.parked⟩ := by
      simp only [wake, Condvar.signal, parked, ↓reduceIte]
    rw [List.foldl_cons, ih _ (by rw [first]; exact parked), first]
    simp

/-- A call answers whether a signal was pending or came in its sleep, and leaves the flag down. -/
theorem park_eq :
    (s.park timeout (some sleep)).1 = some (s.shared.pending || !sleep.during.isEmpty) ∧
      (s.turn (.park timeout sleep)).shared = ⟨false, s.shared.parked⟩ := by
  obtain ⟨⟨pending, parked⟩, calls, seen⟩ := s
  cases pending with
  | true => simp [turn, park, stepPark, leave]
  | false =>
    simp only [turn, park, stepPark, leave, Bool.false_eq_true, ↓reduceIte]
    rw [shared_wakes _ (Nat.succ_ne_zero parked)]
    simp

theorem answers_eq_heard (clear : s.shared = {}) (turns : List Turn) :
    s.answers turns = (heard turns).map some := by
  induction turns generalizing s with
  | nil => rfl
  | cons turn turns ih =>
    cases turn with
    | wake signal =>
      have unmoved : s.turn (.wake signal) = s := wake_of_nobody s signal (by rw [clear])
      rw [answers, heard, unmoved, ih s clear]
    | park timeout sleep =>
      obtain ⟨answer, place⟩ := park_eq s timeout sleep
      rw [clear] at answer place
      rw [answers, heard, answer, ih _ place, Bool.false_or, List.map_cons]

end Condvar.Solo

/-! ## Both -/

/-- **Parking one at a time.**  Whatever went before, a parking call on a futex answers whether it
found a signal or was told of one, sleeps only if it found none, and leaves the word clear and the
count as it was; a signal while nobody is parked is not kept.  From a fresh place on, both kinds of
parking place answer whether a signal came in the sleep, if the kernel does not make up wake-ups. -/
theorem parking_alone (turns : List Turn) :
    (∀ (s : Futex.Solo) (timeout : Option Duration) (sleep : Sleep),
        (s.after turns).Parks timeout sleep) ∧
      (∀ (s : Futex.Solo) (signal : Signal), s.shared.parked = 0 →
        (s.after turns).wake signal = s.after turns) ∧
      ((∀ turn ∈ turns, turn.IsHonest) →
        Futex.Solo.answers {} turns = heard turns ∧
          Condvar.Solo.answers {} turns = (heard turns).map some) := by
  refine ⟨fun s => (s.after turns).parks, fun s signal nobody => ?_, fun honest => ⟨?_, ?_⟩⟩
  · exact (s.after turns).wake_of_nobody signal ((s.parked_after turns).trans nobody)
  · exact Futex.Solo.answers_eq_heard {} rfl honest
  · exact Condvar.Solo.answers_eq_heard {} rfl turns

/-- A signal before the first call, a call that is signalled just when its time runs out, two
signals after it, and a call that is interrupted. -/
theorem parking_alone_of_late :
    let turns : List Turn := [.wake .one, .park none { during := [.all] }, .wake .all, .wake .one,
      .park (some .zero) { ending := .failed Errno.eintr }]
    (∀ turn ∈ turns, turn.IsHonest) ∧ heard turns = [true, false] ∧
      Futex.Solo.answers {} turns = [true, false] ∧
      Condvar.Solo.answers {} turns = [some true, some false] ∧
      (Futex.Solo.after {} turns).wake .all = Futex.Solo.after {} turns := by
  intro turns
  have honest : ∀ turn ∈ turns, turn.IsHonest := by decide
  have answers := (parking_alone turns).2.2 honest
  exact ⟨honest, rfl, answers.1, answers.2, (parking_alone turns).2.1 {} .all rfl⟩

end Interlock.Parking
