import Interlock.Proofs.Parking.Alone
import Interlock.Proofs.Parking.Flag

/-!
# One parker, step by step

`Solo` takes a parking call with everything that happens in its sleep as one turn; `System` moves
one step at a time.  A turn is a run of the system in which nobody else parks: the call counts
itself in and falls asleep, the signals of its sleep are sent, the sleep ends, and the call leaves
(`Futex.Solo.moves`, `Condvar.Solo.moves`).  The system then stands where the turn says, so what
holds of a history of turns holds of that run (`Futex.Solo.run_historyMoves`,
`Condvar.Solo.run_historyMoves`).
-/

namespace Interlock.Parking

namespace Futex

/-! ## On a futex -/

/-- A signalling call with the number `w`, from its beginning to its end. -/
def wakeMoves (w : Nat) (signal : Signal) : List Move :=
  [.beginWake signal, .wake w, .wake w, .wake w]

/-- Signalling calls with the numbers from `w` on, one after the other. -/
def wakesMoves (w : Nat) : List Signal → List Move
  | [] => []
  | signal :: signals => wakeMoves w signal ++ wakesMoves (w + 1) signals

/-- A parking call with the number `p` until it sleeps or, if a signal was pending, until it
returns. -/
def arriveMoves (p : Nat) : List Move := [.beginPark, .park p, .park p, .park p]

/-- What happens in a sleep.  A sleep that no signal ends is over before the signals come: they find
the call still counted, and leave the word for it. -/
def sleepMoves (p w : Nat) (sleep : Sleep) : List Move :=
  match sleep.ending with
  | .woken => wakesMoves w sleep.during
  | .failed code => .endSleep p code :: wakesMoves w sleep.during

/-- A parking call after its sleep. -/
def leaveMoves (p : Nat) : List Move := [.park p, .park p]

namespace System

variable (t : System) (signal : Signal)

theorem run_append (xs ys : List Move) : t.run (xs ++ ys) = (t.run xs).run ys := List.foldl_append

theorem run_wakeMoves_of_nobody (nobody : t.shared.parked = 0) :
    t.run (wakeMoves t.wakes.length signal) =
      { t with wakes := t.wakes ++ [(signal, .finished)] } := by
  simp [run, wakeMoves, move, stepWake, Futex.stepWake, nobody]

theorem run_wakeMoves_of_parked (parked : t.shared.parked ≠ 0) :
    t.run (wakeMoves t.wakes.length signal) =
      { t.rouseAll (t.sleepers.take (wakeCount signal)) with
        shared := ⟨1, t.shared.parked⟩
        wakes := t.wakes ++ [(signal, .finished)] } := by
  simp [run, wakeMoves, move, stepWake, Futex.stepWake, parked, wakeSleepers_eq, rouseAll_eq]

/-- Signals that find nobody asleep, but somebody parked. -/
theorem run_wakesMoves (awake : t.sleepers = []) (parked : t.shared.parked ≠ 0)
    (signals : List Signal) :
    t.run (wakesMoves t.wakes.length signals) =
      { t with
        shared := ⟨if signals = [] then t.shared.word else 1, t.shared.parked⟩
        wakes := t.wakes ++ signals.map (·, .finished) } := by
  induction signals generalizing t with
  | nil => simp [run, wakesMoves]
  | cons signal signals ih =>
    have first := run_wakeMoves_of_parked t signal parked
    simp only [awake, List.take_nil] at first
    have later := ih (t.run (wakeMoves t.wakes.length signal)) (by rw [first]; exact awake)
      (by rw [first]; exact parked)
    rw [wakesMoves, run_append]
    rw [first] at later ⊢
    simpa [rouseAll] using later

variable (parks : List Park) (wakes : List (Signal × Wake)) (parked : Nat)

/-- A call that finds no signal counts itself in and falls asleep. -/
theorem run_arriveMoves_of_clear :
    run ⟨⟨0, parked⟩, [], parks, wakes⟩ (arriveMoves parks.length) =
      ⟨⟨0, parked + 1⟩, [parks.length], parks ++ [.asleep], wakes⟩ := by
  simp [run, arriveMoves, move, stepPark, Futex.stepPark, fallAsleep]

/-- A call that finds a signal takes it and returns. -/
theorem run_arriveMoves_of_pending {word : UInt32} (pending : word ≠ 0) :
    run ⟨⟨word, parked⟩, [], parks, wakes⟩ (arriveMoves parks.length) =
      ⟨⟨0, parked⟩, [], parks ++ [.returned true], wakes⟩ := by
  simp [run, arriveMoves, move, stepPark, Futex.stepPark, pending]

/-- The only sleeper is woken by the first signal, if by any, and the signals stay in the word. -/
theorem run_sleepMoves (sleep : Sleep)
    (honest : sleep.ending = .woken → sleep.during ≠ []) :
    run ⟨⟨0, parked + 1⟩, [parks.length], parks ++ [.asleep], wakes⟩
        (sleepMoves parks.length wakes.length sleep) =
      ⟨⟨if sleep.during = [] then 0 else 1, parked + 1⟩, [], parks ++ [.collecting sleep.ending],
        wakes ++ sleep.during.map (·, .finished)⟩ := by
  obtain ⟨during, ending⟩ := sleep
  cases ending with
  | failed code =>
    have ended : move ⟨⟨0, parked + 1⟩, [parks.length], parks ++ [.asleep], wakes⟩
        (.endSleep parks.length code) =
          ⟨⟨0, parked + 1⟩, [], parks ++ [.collecting (.failed code)], wakes⟩ := by
      simp [move, rouse]
    show run (move _ (.endSleep parks.length code)) (wakesMoves wakes.length during) = _
    rw [ended]
    exact run_wakesMoves _ rfl (Nat.succ_ne_zero parked) during
  | woken =>
    cases during with
    | nil => exact absurd rfl (honest rfl)
    | cons signal signals =>
      have reached : [parks.length].take (wakeCount signal) = [parks.length] := by
        cases signal <;> rfl
      have first := run_wakeMoves_of_parked
        ⟨⟨0, parked + 1⟩, [parks.length], parks ++ [.asleep], wakes⟩ signal
        (Nat.succ_ne_zero parked)
      have woken : rouseAll ⟨⟨0, parked + 1⟩, [parks.length], parks ++ [.asleep], wakes⟩
          [parks.length] =
            ⟨⟨0, parked + 1⟩, [], parks ++ [.collecting .woken], wakes⟩ := by
        simp [rouseAll, rouse]
      rw [reached, woken] at first
      have later := run_wakesMoves
        ⟨⟨1, parked + 1⟩, [], parks ++ [.collecting .woken], wakes ++ [(signal, .finished)]⟩ rfl
        (Nat.succ_ne_zero parked) signals
      rw [List.length_append] at later
      show run _ (wakeMoves wakes.length signal ++ wakesMoves (wakes.length + 1) signals) = _
      rw [run_append, first]
      simpa using later

/-- A call that has slept takes the signal from the word and counts itself out. -/
theorem run_leaveMoves (word : UInt32) (ending : SleepEnd) :
    run ⟨⟨word, parked + 1⟩, [], parks ++ [.collecting ending], wakes⟩ (leaveMoves parks.length) =
      ⟨⟨0, parked⟩, [], parks ++ [.returned (word ≠ 0 || ending = .woken)], wakes⟩ := by
  simp [run, leaveMoves, move, stepPark, Futex.stepPark]

end System

namespace Solo

/-- The moves of a turn at a place where `p` calls have parked and `w` have signalled so far. -/
def moves (s : Solo) (p w : Nat) : Turn → List Move
  | .wake signal => wakeMoves w signal
  | .park _ sleep =>
    if s.shared.word = 0 then arriveMoves p ++ sleepMoves p w sleep ++ leaveMoves p
    else arriveMoves p

/-- The signals that are sent in a turn: a call that does not sleep awaits none. -/
def sent (s : Solo) : Turn → List Signal
  | .wake signal => [signal]
  | .park _ sleep => if s.shared.word = 0 then sleep.during else []

/-- What a turn answers, if it is a parking call. -/
def reply (s : Solo) : Turn → List Bool
  | .wake _ => []
  | .park timeout sleep => [(s.park timeout (some sleep)).1]

/-- The system in which no call is in progress, the parking calls have answered this, and these
signals were sent. -/
def system (s : Solo) (answers : List Bool) (signals : List Signal) : System :=
  { shared := s.shared, parks := answers.map .returned, wakes := signals.map (·, .finished) }

/-- A turn is a run of the system in which one call parks. -/
theorem run_moves (s : Solo) (answers : List Bool) (signals : List Signal) {turn : Turn}
    (honest : turn.IsHonest) :
    (s.system answers signals).run (s.moves answers.length signals.length turn) =
      (s.turn turn).system (answers ++ s.reply turn) (signals ++ s.sent turn) := by
  cases turn with
  | wake signal =>
    have begun : (s.system answers signals).wakes.length = signals.length := List.length_map _
    rw [moves, ← begun]
    by_cases nobody : s.shared.parked = 0
    · rw [System.run_wakeMoves_of_nobody _ _ nobody, turn, wake_of_nobody s signal nobody]
      simp [system, reply, sent]
    · rw [System.run_wakeMoves_of_parked _ _ nobody, turn, wake_of_parked s signal nobody]
      simp [system, reply, sent, System.rouseAll]
  | park timeout sleep =>
    obtain ⟨⟨word, parked⟩, calls, seen, log⟩ := s
    have begun : (answers.map Park.returned).length = answers.length := List.length_map _
    have told : (signals.map fun signal => (signal, Wake.finished)).length = signals.length :=
      List.length_map _
    by_cases clear : word = 0
    · subst clear
      have arrived := System.run_arriveMoves_of_clear (answers.map .returned)
        (signals.map (·, .finished)) parked
      have slept := System.run_sleepMoves (answers.map .returned) (signals.map (·, .finished))
        parked sleep honest
      have left := System.run_leaveMoves (answers.map .returned)
        (signals.map (·, .finished) ++ sleep.during.map (·, .finished)) parked
        (if sleep.during = [] then 0 else 1) sleep.ending
      rw [begun] at arrived slept left
      rw [told] at slept
      simp only [moves, ↓reduceIte, System.run_append]
      simp only [system, arrived, slept, left]
      simp [turn, reply, sent, park_of_clear, slept_eq]
    · have arrived := System.run_arriveMoves_of_pending (answers.map .returned)
        (signals.map (·, .finished)) parked clear
      rw [begun] at arrived
      simp only [moves, clear, ↓reduceIte, system, arrived]
      simp [turn, reply, sent, clear, park_of_pending]

/-- The moves of a history, turn by turn. -/
def historyMoves (s : Solo) (p w : Nat) : List Turn → List Move
  | [] => []
  | turn :: turns =>
    s.moves p w turn ++
      (s.turn turn).historyMoves (p + (s.reply turn).length) (w + (s.sent turn).length) turns

/-- The signals that are sent in a history. -/
def sentIn (s : Solo) : List Turn → List Signal
  | [] => []
  | turn :: turns => s.sent turn ++ (s.turn turn).sentIn turns

theorem answers_cons (s : Solo) (turn : Turn) (turns : List Turn) :
    s.answers (turn :: turns) = s.reply turn ++ (s.turn turn).answers turns := by
  cases turn <;> rfl

/-- A history is a run of the system in which no two calls park at once, with the same answers. -/
theorem run_historyMoves (s : Solo) (answers : List Bool) (signals : List Signal)
    {turns : List Turn} (honest : ∀ turn ∈ turns, turn.IsHonest) :
    (s.system answers signals).run (s.historyMoves answers.length signals.length turns) =
      (s.after turns).system (answers ++ s.answers turns) (signals ++ s.sentIn turns) := by
  induction turns generalizing s answers signals with
  | nil => simp [historyMoves, System.run, Solo.answers, sentIn, after]
  | cons turn turns ih =>
    obtain ⟨first, later⟩ := List.forall_mem_cons.1 honest
    have rest := ih (s.turn turn) (answers ++ s.reply turn) (signals ++ s.sent turn) later
    rw [List.length_append, List.length_append] at rest
    rw [historyMoves, System.run_append, run_moves s answers signals first, rest, answers_cons,
      sentIn, List.append_assoc, List.append_assoc]
    rfl

/-- Of the calls that park one after the other at a fresh place, those return true in whose sleep
there was a signal. -/
theorem parks_historyMoves {turns : List Turn} (honest : ∀ turn ∈ turns, turn.IsHonest) :
    (System.run {} (historyMoves {} 0 0 turns)).parks = (heard turns).map .returned := by
  have run := run_historyMoves {} [] [] honest
  rw [answers_eq_heard {} rfl honest] at run
  exact congrArg System.parks run

end Solo

end Futex

/-! ## On a condition variable -/

namespace Condvar

/-- A parking call with the number `p` until it sleeps or, if a signal was pending, until it
returns. -/
def arriveMoves (p : Nat) : List Move := [.beginPark, .park p]

/-- The rest of a parking call: its sleep, which ends by the first signal or, if there is none, by
itself, and its second critical section. -/
def leaveMoves (p : Nat) (signals : List Signal) : List Move :=
  signals.map .wake ++ [.endSleep p, .park p]

namespace System

variable (parks : List Park) (parked : Nat)

theorem run_append (t : System) (xs ys : List Move) : t.run (xs ++ ys) = (t.run xs).run ys :=
  List.foldl_append

/-- A call that finds no signal counts itself in and falls asleep. -/
theorem run_arriveMoves_of_clear :
    run ⟨⟨false, parked⟩, [], parks⟩ (arriveMoves parks.length) =
      ⟨⟨false, parked + 1⟩, [parks.length], parks ++ [.asleep]⟩ := by
  simp [run, arriveMoves, move, stepPark, Condvar.stepPark]

/-- A call that finds a signal takes it and returns. -/
theorem run_arriveMoves_of_pending :
    run ⟨⟨true, parked⟩, [], parks⟩ (arriveMoves parks.length) =
      ⟨⟨false, parked⟩, [], parks ++ [.returned true]⟩ := by
  simp [run, arriveMoves, move, stepPark, Condvar.stepPark, leave]

/-- Signals that find nobody asleep, but somebody parked, stay in the flag. -/
theorem run_wakes (t : System) (awake : t.sleepers = []) (parked : t.shared.parked ≠ 0)
    (signals : List Signal) :
    t.run (signals.map .wake) =
      { t with shared.pending := t.shared.pending || !signals.isEmpty } := by
  induction signals generalizing t with
  | nil => simp [run]
  | cons signal signals ih =>
    have first : t.move (.wake signal) = { t with shared.pending := true } := by
      simp [move_wake, parked, awake, rouseAll]
    show (t.move (.wake signal)).run (signals.map .wake) = _
    rw [first]
    refine (ih { t with shared.pending := true } awake parked).trans ?_
    simp

/-- The only sleeper wakes up, by the first signal or by itself, and takes the flag. -/
theorem run_leaveMoves (signals : List Signal) :
    run ⟨⟨false, parked + 1⟩, [parks.length], parks ++ [.asleep]⟩
        (leaveMoves parks.length signals) =
      ⟨⟨false, parked⟩, [], parks ++ [.returned (!signals.isEmpty)]⟩ := by
  cases signals with
  | nil => simp [run, leaveMoves, move, rouse, stepPark, Condvar.stepPark, leave]
  | cons signal signals =>
    have first : move ⟨⟨false, parked + 1⟩, [parks.length], parks ++ [.asleep]⟩ (.wake signal) =
        ⟨⟨true, parked + 1⟩, [], parks ++ [.returning]⟩ := by
      cases signal <;> simp [move_wake, reach, rouseAll, rouse]
    have later := run_wakes ⟨⟨true, parked + 1⟩, [], parks ++ [.returning]⟩ rfl
      (Nat.succ_ne_zero parked) signals
    show run (move _ (.wake signal)) (signals.map .wake ++ [.endSleep _, .park _]) = _
    rw [first, run_append, later]
    simp [run, move, stepPark, Condvar.stepPark, leave]

end System

namespace Solo

/-- The moves of a turn at a place where `p` calls have parked so far. -/
def moves (s : Solo) (p : Nat) : Turn → List Move
  | .wake signal => [.wake signal]
  | .park _ sleep =>
    if s.shared.pending then arriveMoves p else arriveMoves p ++ leaveMoves p sleep.during

/-- What a turn answers, if it is a parking call. -/
def reply (s : Solo) : Turn → List Bool
  | .wake _ => []
  | .park _ sleep => [s.shared.pending || !sleep.during.isEmpty]

/-- The system in which no call is in progress and the parking calls have answered this. -/
def system (s : Solo) (answers : List Bool) : System :=
  { shared := s.shared, parks := answers.map .returned }

/-- A turn is a run of the system in which one call parks. -/
theorem run_moves (s : Solo) (answers : List Bool) (turn : Turn) :
    (s.system answers).run (s.moves answers.length turn) =
      (s.turn turn).system (answers ++ s.reply turn) := by
  cases turn with
  | wake signal =>
    show (s.system answers).move (.wake signal) = _
    rw [System.move_wake]
    by_cases nobody : s.shared.parked = 0
    · simp [system, nobody, turn, wake_of_nobody, reply]
    · simp [system, nobody, turn, wake, Condvar.signal, reply, System.rouseAll]
  | park timeout sleep =>
    have begun : (answers.map Park.returned).length = answers.length := List.length_map _
    have left := (s.park_eq timeout sleep).2
    obtain ⟨⟨pending, parked⟩, calls, seen⟩ := s
    cases pending with
    | true =>
      have arrived := System.run_arriveMoves_of_pending (answers.map .returned) parked
      rw [begun] at arrived
      simp [moves, system, arrived, left, reply]
    | false =>
      have arrived := System.run_arriveMoves_of_clear (answers.map .returned) parked
      have returned := System.run_leaveMoves (answers.map .returned) parked sleep.during
      rw [begun] at arrived returned
      simp [moves, system, System.run_append, arrived, returned, left, reply]

/-- The place after a history. -/
def after (s : Solo) (turns : List Turn) : Solo := turns.foldl turn s

/-- The moves of a history, turn by turn. -/
def historyMoves (s : Solo) (p : Nat) : List Turn → List Move
  | [] => []
  | turn :: turns => s.moves p turn ++ (s.turn turn).historyMoves (p + (s.reply turn).length) turns

/-- What the parking calls of a history answer. -/
def replies (s : Solo) : List Turn → List Bool
  | [] => []
  | turn :: turns => s.reply turn ++ (s.turn turn).replies turns

theorem answers_eq_replies (s : Solo) (turns : List Turn) :
    s.answers turns = (s.replies turns).map some := by
  induction turns generalizing s with
  | nil => rfl
  | cons turn turns ih =>
    rw [replies, List.map_append, ← ih]
    cases turn with
    | wake signal => rfl
    | park timeout sleep => rw [answers, (s.park_eq timeout sleep).1]; rfl

/-- A history is a run of the system in which no two calls park at once, with the same answers. -/
theorem run_historyMoves (s : Solo) (answers : List Bool) (turns : List Turn) :
    (s.system answers).run (s.historyMoves answers.length turns) =
      (s.after turns).system (answers ++ s.replies turns) := by
  induction turns generalizing s answers with
  | nil => simp [historyMoves, System.run, replies, after]
  | cons turn turns ih =>
    have rest := ih (s.turn turn) (answers ++ s.reply turn)
    rw [List.length_append] at rest
    rw [historyMoves, System.run_append, run_moves s answers turn, rest, replies, List.append_assoc]
    rfl

/-- Of the calls that park one after the other at a fresh place, those return true in whose sleep
there was a signal. -/
theorem parks_historyMoves (turns : List Turn) :
    (System.run {} (historyMoves {} 0 turns)).parks = (heard turns).map .returned := by
  have run := run_historyMoves {} [] turns
  have same : replies {} turns = heard turns := by
    have answers := answers_eq_heard {} rfl turns
    rw [answers_eq_replies] at answers
    exact List.map_inj_right (fun _ _ => Option.some.inj) |>.1 answers
  rw [same] at run
  exact congrArg System.parks run

end Solo

end Condvar

end Interlock.Parking
