import Mathlib.Data.Nat.Find
import Mathlib.Order.Bounds.Basic
import Mathlib.Tactic.IntervalCases
import Interlock.Condition.Lock

/-!
# Waiting through a stream of updates

What other threads do during the waits is a stream without an end: during each wait one of them may
store a value, and the wait may end because its time ran out.  The stream gives the values under
the lock by itself, without regard to any loop, and waiting stops at the least of them that tells
it to.  The loops see the first `n` updates of the stream, for every `n`; each of them is unfolded
once per update, and the values of the rest of the stream are those of the stream one place later.
-/

namespace Interlock.Condition

/-! ## The stream and its values -/

/-- What happens during one wait: another thread may store a value, and time may run out. -/
structure Update (α : Type) where
  store : Option α := none
  timedOut : Bool := false
  deriving DecidableEq, Repr

variable {α : Type}

/-- An update as an event of the cell that is guarded. -/
def Update.event (update : Update α) : Event (Cell α) where
  act c := (update.store.elim c c.store, [])
  timedOut := update.timedOut

/-- The events that the first `n` updates make. -/
def events (u : Nat → Update α) (n : Nat) : List (Event (Cell α)) :=
  (List.range n).map fun k => (u k).event

/-- The values under the lock, before the first wait and after each. -/
def valueAt (v : α) (u : Nat → Update α) : Nat → α
  | 0 => v
  | k + 1 => (u k).store.getD (valueAt v u k)

/-- The stream without its first update. -/
def rest (u : Nat → Update α) : Nat → Update α := fun k => u (k + 1)

@[simp] theorem events_zero (u : Nat → Update α) : events u 0 = [] := rfl

theorem events_succ (u : Nat → Update α) (n : Nat) :
    events u (n + 1) = (u 0).event :: events (rest u) n := by
  simp [events, rest, List.range_succ_eq_map, Function.comp_def]

@[simp] theorem valueAt_zero (v : α) (u : Nat → Update α) : valueAt v u 0 = v := rfl

theorem valueAt_rest (v : α) (u : Nat → Update α) (k : Nat) :
    valueAt (valueAt v u 1) (rest u) k = valueAt v u (k + 1) := by
  induction k with
  | zero => rfl
  | succ k ih =>
    show (rest u k).store.getD _ = (u (k + 1)).store.getD _
    rw [ih]
    rfl

/-- The values from the `j`-th down to the first. -/
def trail (v : α) (u : Nat → Update α) : Nat → List α
  | 0 => [v]
  | j + 1 => valueAt v u (j + 1) :: trail v u j

theorem trail_rest (v : α) (u : Nat → Update α) (j : Nat) :
    trail v u (j + 1) = trail (valueAt v u 1) (rest u) j ++ [v] := by
  induction j with
  | zero => rfl
  | succ j ih => rw [trail, ih, ← valueAt_rest]; rfl

/-- Time ran out in the wait before the `j`-th value; there is none before the first. -/
def TimedOut (u : Nat → Update α) : Nat → Prop
  | 0 => False
  | k + 1 => (u k).timedOut = true

/-- Who is late for the later updates is late for all. -/
theorem TimedOut.of_rest {u : Nat → Update α} {j : Nat} (late : TimedOut (rest u) j) :
    TimedOut u (j + 1) := by
  cases j with
  | zero => exact late.elim
  | succ j => exact late

/-- Who is late, but not at the first update, is late for the later ones. -/
theorem TimedOut.rest {u : Nat → Update α} {j : Nat} (late : TimedOut u (j + 1))
    (inTime : ¬ TimedOut u 1) : TimedOut (rest u) j := by
  cases j with
  | zero => exact absurd late inTime
  | succ j => exact late

/-! ## One turn of a loop -/

section

variable {p : α → Bool} {u : Nat → Update α} {v : α} {n j : Nat}

theorem event_act (polled : List α) :
    (u 0).event.act ⟨v, polled⟩ = (⟨valueAt v u 1, polled⟩, []) := by
  cases h : (u 0).store <;> simp [Update.event, valueAt, h, Cell.store]

theorem lockWhen_of_met (met : p v = true) (es : List (Event (Cell α))) (polled : List α) :
    lockWhen (Cell.ask p) es ⟨v, polled⟩ = ⟨⟨v, v :: polled⟩, es, [], .met⟩ := by
  cases es <;> simp [lockWhen, waitWhile, negated, Cell.ask, met]

theorem lockWhen_nil (unmet : p v = false) (polled : List α) :
    lockWhen (Cell.ask p) [] ⟨v, polled⟩ = ⟨⟨v, v :: polled⟩, [], [.wait], .blocked⟩ := by
  simp [lockWhen, waitWhile, negated, Cell.ask, unmet]

theorem lockWhen_turn (unmet : p v = false) (polled : List α) :
    lockWhen (Cell.ask p) (events u (n + 1)) ⟨v, polled⟩ =
      (lockWhen (Cell.ask p) (events (rest u) n) ⟨valueAt v u 1, v :: polled⟩).after [.wait] := by
  simp [events_succ, lockWhen, waitWhile, negated, Cell.ask, unmet, event_act]

theorem runOut_ask (es : List (Event (Cell α))) (calls : List Call) (polled : List α) :
    runOut (Cell.ask p) es calls ⟨v, polled⟩ =
      ⟨⟨v, v :: polled⟩, es, calls, if p v then .met else .expired⟩ := by
  cases h : p v <;> simp [runOut, Cell.ask, h]

theorem waitUntil_of_met (met : p v = true) (es : List (Event (Cell α))) (polled : List α) :
    waitUntil (Cell.ask p) es ⟨v, polled⟩ = ⟨⟨v, v :: polled⟩, es, [], .met⟩ := by
  cases es <;> simp [waitUntil, Cell.ask, met]

theorem waitUntil_nil (unmet : p v = false) (polled : List α) :
    waitUntil (Cell.ask p) [] ⟨v, polled⟩ =
      ⟨⟨v, v :: v :: polled⟩, [], [.waitUntil], .expired⟩ := by
  simp [waitUntil, runOut, Cell.ask, unmet]

/-- When time runs out the condition is asked for a last time. -/
theorem waitUntil_turn_of_timedOut (unmet : p v = false) (late : TimedOut u 1)
    (polled : List α) :
    waitUntil (Cell.ask p) (events u (n + 1)) ⟨v, polled⟩ =
      ⟨⟨valueAt v u 1, valueAt v u 1 :: v :: polled⟩, events (rest u) n, [.waitUntil],
        if p (valueAt v u 1) then .met else .expired⟩ := by
  have timed : (u 0).event.timedOut = true := late
  simp [events_succ, waitUntil, Cell.ask, unmet, event_act, timed, ← runOut_ask]

/-- While there is time, an unmet condition is asked for again after the next update. -/
theorem waitUntil_turn (unmet : p v = false) (inTime : ¬ TimedOut u 1) (polled : List α) :
    waitUntil (Cell.ask p) (events u (n + 1)) ⟨v, polled⟩ =
      (waitUntil (Cell.ask p) (events (rest u) n) ⟨valueAt v u 1, v :: polled⟩).after
        [.waitUntil] := by
  have timed : ¬ (u 0).event.timedOut = true := inTime
  simp [events_succ, waitUntil, Cell.ask, unmet, event_act, timed]

/-! ## A whole wait -/

/-- The plain wait up to the first value that satisfies the predicate. -/
theorem lockWhen_of_first (polled : List α) (within : j ≤ n) (met : p (valueAt v u j) = true)
    (first : ∀ i < j, p (valueAt v u i) = false) :
    lockWhen (Cell.ask p) (events u n) ⟨v, polled⟩ =
      ⟨⟨valueAt v u j, trail v u j ++ polled⟩, (events u n).drop j, List.replicate j .wait,
        .met⟩ := by
  induction j generalizing u v n polled with
  | zero => exact lockWhen_of_met met (events u n) polled
  | succ j ih =>
    obtain ⟨n, rfl⟩ := Nat.exists_eq_add_of_lt within
    have unmet : p v = false := first 0 (by omega)
    have later := ih (u := rest u) (v := valueAt v u 1) (v :: polled) (Nat.le_add_right j n)
      (by rw [valueAt_rest]; exact met)
      (fun i before => by rw [valueAt_rest]; exact first (i + 1) (by omega))
    rw [valueAt_rest] at later
    rw [lockWhen_turn unmet, later, trail_rest, events_succ]
    simp [Waited.after, List.replicate_succ]

/-- The plain wait while no value satisfies the predicate: it is in its next wait when the updates
are used up. -/
theorem lockWhen_of_never (polled : List α) (never : ∀ i ≤ n, p (valueAt v u i) = false) :
    lockWhen (Cell.ask p) (events u n) ⟨v, polled⟩ =
      ⟨⟨valueAt v u n, trail v u n ++ polled⟩, [], List.replicate (n + 1) .wait, .blocked⟩ := by
  induction n generalizing u v polled with
  | zero => exact lockWhen_nil (never 0 le_rfl) polled
  | succ n ih =>
    have unmet : p v = false := never 0 (by omega)
    have later := ih (u := rest u) (v := valueAt v u 1) (v :: polled)
      (fun i before => by rw [valueAt_rest]; exact never (i + 1) (by omega))
    rw [valueAt_rest] at later
    rw [lockWhen_turn unmet, later, trail_rest]
    simp [Waited.after, List.replicate_succ]

/-- The wait with a deadline up to the first value that satisfies the predicate or comes with a
timeout.  The predicate then tells whether it is met. -/
theorem waitUntil_of_first (polled : List α) (within : j ≤ n)
    (stops : p (valueAt v u j) = true ∨ TimedOut u j)
    (first : ∀ i < j, p (valueAt v u i) = false ∧ ¬ TimedOut u i) :
    waitUntil (Cell.ask p) (events u n) ⟨v, polled⟩ =
      ⟨⟨valueAt v u j, trail v u j ++ polled⟩, (events u n).drop j, List.replicate j .waitUntil,
        if p (valueAt v u j) then .met else .expired⟩ := by
  induction j generalizing u v n polled with
  | zero =>
    have met : p v = true := stops.resolve_right id
    simpa [met, trail] using waitUntil_of_met met (events u n) polled
  | succ j ih =>
    obtain ⟨n, rfl⟩ := Nat.exists_eq_add_of_lt within
    have unmet : p v = false := (first 0 (by omega)).1
    by_cases late : TimedOut u 1
    · -- a timeout in the first wait leaves no later one
      obtain rfl : j = 0 := by
        by_contra more
        exact (first 1 (by omega)).2 late
      rw [waitUntil_turn_of_timedOut unmet late, events_succ]
      simp [trail]
    · have later := ih (u := rest u) (v := valueAt v u 1) (v :: polled) (Nat.le_add_right j n)
        (by rw [valueAt_rest]; exact stops.imp_right fun timed => timed.rest late)
        (fun i before => by
          rw [valueAt_rest]
          exact (first (i + 1) (by omega)).imp_right fun inTime timed => inTime timed.of_rest)
      rw [valueAt_rest] at later
      rw [waitUntil_turn unmet late, later, trail_rest, events_succ]
      simp [Waited.after, List.replicate_succ]

/-- The wait with a deadline while nothing stops it: the predicate is asked twice about the last
value, since the wait in which the updates are used up runs out of time. -/
theorem waitUntil_of_never (polled : List α)
    (never : ∀ i ≤ n, p (valueAt v u i) = false ∧ ¬ TimedOut u i) :
    waitUntil (Cell.ask p) (events u n) ⟨v, polled⟩ =
      ⟨⟨valueAt v u n, valueAt v u n :: trail v u n ++ polled⟩, [],
        List.replicate (n + 1) .waitUntil, .expired⟩ := by
  induction n generalizing u v polled with
  | zero => exact waitUntil_nil (never 0 le_rfl).1 polled
  | succ n ih =>
    have unmet : p v = false := (never 0 (by omega)).1
    have later := ih (u := rest u) (v := valueAt v u 1) (v :: polled) (fun i before => by
      rw [valueAt_rest]
      exact (never (i + 1) (by omega)).imp_right fun inTime timed => inTime timed.of_rest)
    rw [valueAt_rest] at later
    rw [waitUntil_turn unmet (never 1 (by omega)).2, later, trail_rest]
    simp [Waited.after, List.replicate_succ]

end

/-- Either one of the first values tells a wait to stop, or none does. -/
theorem first_or_never (P : Nat → Prop) (n : Nat) :
    (∃ j ≤ n, IsLeast {i | P i} j) ∨ ∀ i ≤ n, ¬ P i := by
  classical
  by_cases some : ∃ i ≤ n, P i
  · obtain ⟨i, within, holds⟩ := some
    have any : ∃ i, P i := ⟨i, holds⟩
    exact .inl ⟨Nat.find any, (Nat.find_min' any holds).trans within, Nat.find_spec any,
      fun k hk => Nat.find_min' any hk⟩
  · exact .inr fun i within holds => some ⟨i, within, holds⟩

/-! ## The locks that wait -/

section

variable {p : α → Bool} {u : Nat → Update α} {s : Session α} {now : Instant} {timeout : Duration}
  {n j : Nat}

/-- A deadline that the clock can represent: the predicate is asked once before the loop, and again
in it unless it holds at once. -/
theorem lockWhenTimeout_of_some {deadline : Instant} (soon : now.after? timeout = some deadline)
    (es : List (Event (Cell α))) (v : α) (polled : List α) :
    lockWhenTimeout now timeout (Cell.ask p) es ⟨v, polled⟩ =
      waitUntil (Cell.ask p) es ⟨v, if p v then polled else v :: polled⟩ := by
  cases h : p v
  · simp [lockWhenTimeout, Cell.ask, h, soon]
  · simp [lockWhenTimeout, Cell.ask, h, waitUntil_of_met h]

/-- A deadline that cannot be represented is none. -/
theorem lockWhenTimeout_of_none (far : now.after? timeout = none) (es : List (Event (Cell α)))
    (v : α) (polled : List α) :
    lockWhenTimeout now timeout (Cell.ask p) es ⟨v, polled⟩ =
      lockWhen (Cell.ask p) es ⟨v, if p v then polled else v :: polled⟩ := by
  cases h : p v
  · simp [lockWhenTimeout, Cell.ask, h, far]
  · simp [lockWhenTimeout, Cell.ask, h, lockWhen_of_met h]

/-- What is seen of a wait when it is over, or when no more updates come: the reply, as many calls
of one kind as there were waits, the value that is left under the lock, and the updates that were
not needed. -/
structure Taken.Ends (t : Taken α) (call : Call) (waits : Nat) (reply : Reply α) (v : α)
    (left : List (Event (Cell α))) : Prop where
  reply : t.reply = reply
  calls : t.calls = List.replicate waits call
  value : t.session.cell.value = v
  left : t.left = left

/-- How a call ended says all that can be seen of it. -/
theorem Taken.Ends.agree {t t' : Taken α} {call : Call} {waits : Nat} {reply : Reply α} {v : α}
    {left : List (Event (Cell α))} (h : t.Ends call waits reply v left)
    (h' : t'.Ends call waits reply v left) :
    t.reply = t'.reply ∧ t.calls = t'.calls ∧ t.session.cell.value = t'.session.cell.value ∧
      t.left = t'.left :=
  ⟨h.reply.trans h'.reply.symm, h.calls.trans h'.calls.symm, h.value.trans h'.value.symm,
    h.left.trans h'.left.symm⟩

namespace Session

/-- A call ends with the first update that meets its condition. -/
theorem ends_of_first (own : s.consumed = false) (within : j ≤ n)
    (least : IsLeast {i | p (valueAt s.cell.value u i) = true} j) :
    (s.perform now (.lockWhen p) (events u n)).Ends .wait j (.value (valueAt s.cell.value u j))
      (valueAt s.cell.value u j) ((events u n).drop j) := by
  have waited := lockWhen_of_first s.cell.polled within least.1 fun i before =>
    Bool.eq_false_iff.2 fun met => (least.2 met).not_gt before
  constructor <;> simp [perform, own, Session.waited, underGuard, waited]

/-- A call whose condition is never met does not end. -/
theorem ends_of_never (own : s.consumed = false)
    (never : ∀ i ≤ n, p (valueAt s.cell.value u i) = false) :
    (s.perform now (.lockWhen p) (events u n)).Ends .wait (n + 1) .blocked
      (valueAt s.cell.value u n) [] := by
  have waited := lockWhen_of_never s.cell.polled never
  constructor <;> simp [perform, own, Session.waited, waited]

/-- A timed call ends with the first update that meets its condition or is late. -/
theorem timed_ends_of_first {deadline : Instant} (soon : now.after? timeout = some deadline)
    (own : s.consumed = false) (within : j ≤ n)
    (least : IsLeast {i | p (valueAt s.cell.value u i) = true ∨ TimedOut u i} j) :
    (s.perform now (.lockWhenTimeout timeout p) (events u n)).Ends .waitUntil j
      (if p (valueAt s.cell.value u j) then .value (valueAt s.cell.value u j) else .nothing)
      (valueAt s.cell.value u j) ((events u n).drop j) := by
  have waited (polled : List α) := waitUntil_of_first polled within least.1 fun i before =>
    ⟨Bool.eq_false_iff.2 fun met => (least.2 (.inl met)).not_gt before,
      fun late => (least.2 (.inr late)).not_gt before⟩
  constructor <;>
    cases h : p (valueAt s.cell.value u j) <;>
    simp [perform, own, Session.waited, underGuard, lockWhenTimeout_of_some soon, waited, h]

/-- A timed call ends with nothing if no update meets its condition or is late. -/
theorem timed_ends_of_never {deadline : Instant} (soon : now.after? timeout = some deadline)
    (own : s.consumed = false)
    (never : ∀ i ≤ n, p (valueAt s.cell.value u i) = false ∧ ¬ TimedOut u i) :
    (s.perform now (.lockWhenTimeout timeout p) (events u n)).Ends .waitUntil (n + 1) .nothing
      (valueAt s.cell.value u n) [] := by
  have waited (polled : List α) := waitUntil_of_never polled never
  constructor <;>
    simp [perform, own, Session.waited, underGuard, lockWhenTimeout_of_some soon, waited]

/-- The lock after a predicate that is not met was asked about its value. -/
def asked (p : α → Bool) (s : Session α) : Session α :=
  { s with cell := ⟨s.cell.value,
      if p s.cell.value then s.cell.polled else s.cell.value :: s.cell.polled⟩ }

/-- Without a deadline that the clock can represent, the wait is the plain one. -/
theorem timed_eq_of_none (far : now.after? timeout = none) (own : s.consumed = false)
    (es : List (Event (Cell α))) :
    s.perform now (.lockWhenTimeout timeout p) es = (s.asked p).perform now (.lockWhen p) es := by
  simp [perform, own, asked, Session.waited, lockWhenTimeout_of_none far]

/-- A call whose deadline cannot be represented is the untimed one. -/
theorem timed_agrees_of_none (far : now.after? timeout = none) (own : s.consumed = false) :
    let plain := s.perform now (.lockWhen p) (events u n)
    let timed := s.perform now (.lockWhenTimeout timeout p) (events u n)
    timed.reply = plain.reply ∧ timed.calls = plain.calls ∧
      timed.session.cell.value = plain.session.cell.value ∧ timed.left = plain.left := by
  intro plain timed
  have same : timed = _ := timed_eq_of_none far own (events u n)
  obtain ⟨j, within, least⟩ | never :=
    first_or_never (fun i => p (valueAt s.cell.value u i) = true) n
  · rw [same]
    exact Taken.Ends.agree (ends_of_first own within least) (ends_of_first own within least)
  · have never i (h : i ≤ n) := Bool.eq_false_iff.2 (never i h)
    rw [same]
    exact Taken.Ends.agree (ends_of_never own never) (ends_of_never own never)

/-- No guard holds a value that fails the predicate. -/
theorem guarded_of_first (own : s.consumed = false) {x : α}
    (given : (s.perform now (.lockWhen p) (events u n)).reply = .value x) : p x = true := by
  obtain ⟨j, within, least⟩ | never :=
    first_or_never (fun i => p (valueAt s.cell.value u i) = true) n
  · obtain rfl := Reply.value.inj ((ends_of_first own within least).reply.symm.trans given)
    exact least.1
  · have never i (h : i ≤ n) := Bool.eq_false_iff.2 (never i h)
    cases (ends_of_never own never).reply.symm.trans given

/-- A timed call hands out only values that meet its condition. -/
theorem timed_guarded_of_first (own : s.consumed = false) {x : α}
    (given : (s.perform now (.lockWhenTimeout timeout p) (events u n)).reply = .value x) :
    p x = true := by
  cases when : now.after? timeout with
  | none => exact guarded_of_first own ((timed_agrees_of_none when own).1.symm.trans given)
  | some deadline =>
    obtain ⟨j, within, least⟩ | never :=
      first_or_never (fun i => p (valueAt s.cell.value u i) = true ∨ TimedOut u i) n
    · have told := (timed_ends_of_first when own within least).reply.symm.trans given
      split at told
      · obtain rfl := Reply.value.inj told
        assumption
      · cases told
    · have never i (h : i ≤ n) := (not_or.1 (never i h)).imp_left Bool.eq_false_iff.2
      cases (timed_ends_of_never when own never).reply.symm.trans given

/-- As long as no wait times out, both forms return the same values after the same waits. -/
theorem timed_returns_iff (own : s.consumed = false) (inTime : ∀ i ≤ n, ¬ TimedOut u i) (x : α) :
    let plain := s.perform now (.lockWhen p) (events u n)
    let timed := s.perform now (.lockWhenTimeout timeout p) (events u n)
    (timed.reply = .value x ↔ plain.reply = .value x) ∧
      (plain.reply = .value x →
        timed.calls.length = plain.calls.length ∧ timed.left = plain.left) := by
  intro plain timed
  cases when : now.after? timeout with
  | none =>
    obtain ⟨reply, calls, -, left⟩ :=
      timed_agrees_of_none (p := p) (u := u) (n := n) when own
    exact ⟨by rw [reply], fun _ => ⟨by rw [calls], left⟩⟩
  | some deadline =>
    obtain ⟨j, within, least⟩ | never :=
      first_or_never (fun i => p (valueAt s.cell.value u i) = true) n
    · have due : IsLeast {i | p (valueAt s.cell.value u i) = true ∨ TimedOut u i} j := by
        refine ⟨.inl least.1, fun i told => ?_⟩
        by_contra before
        exact told.elim (fun met => before (least.2 met)) (inTime i (by omega))
      have met : p (valueAt s.cell.value u j) = true := least.1
      have plainly : plain.Ends .wait j _ _ _ := ends_of_first own within least
      have timely := timed_ends_of_first when own within due
      rw [if_pos met] at timely
      refine ⟨by rw [timely.reply, plainly.reply], fun _ => ⟨?_, ?_⟩⟩
      · rw [timely.calls, plainly.calls, List.length_replicate, List.length_replicate]
      · rw [timely.left, plainly.left]
    · have never i (h : i ≤ n) := Bool.eq_false_iff.2 (never i h)
      have plainly : plain.reply = _ := (ends_of_never own never).reply
      have timely := (timed_ends_of_never when own fun i h => ⟨never i h, inTime i h⟩).reply
      rw [plainly, timely]
      simp

/-- **What waiting on a condition means.**  The plain wait returns the least value of the stream
that satisfies the predicate, after as many waits as it has predecessors, and is in its next wait
for as long as there is none.  With a deadline the wait stops at the least value that satisfies the
predicate or comes with a timeout, and returns it exactly if it satisfies the predicate.  With a
deadline that the clock cannot represent it is the plain wait.  No guard holds a value that fails
the predicate, and without a timeout both forms return the same values after the same waits. -/
theorem follows_updates (p : α → Bool) (u : Nat → Update α) (s : Session α) (now : Instant)
    (timeout : Duration) (n : Nat) (own : s.consumed = false) :
    let v := valueAt s.cell.value u
    let plain := s.perform now (.lockWhen p) (events u n)
    let timed := s.perform now (.lockWhenTimeout timeout p) (events u n)
    (∀ j ≤ n, IsLeast {i | p (v i) = true} j →
      plain.Ends .wait j (.value (v j)) (v j) ((events u n).drop j)) ∧
    ((∀ i ≤ n, p (v i) = false) → plain.Ends .wait (n + 1) .blocked (v n) []) ∧
    (∀ deadline, now.after? timeout = some deadline →
      (∀ j ≤ n, IsLeast {i | p (v i) = true ∨ TimedOut u i} j →
        timed.Ends .waitUntil j (if p (v j) then .value (v j) else .nothing) (v j)
          ((events u n).drop j)) ∧
      ((∀ i ≤ n, p (v i) = false ∧ ¬ TimedOut u i) →
        timed.Ends .waitUntil (n + 1) .nothing (v n) [])) ∧
    (now.after? timeout = none →
      timed.reply = plain.reply ∧ timed.calls = plain.calls ∧
        timed.session.cell.value = plain.session.cell.value ∧ timed.left = plain.left) ∧
    (∀ x, plain.reply = .value x ∨ timed.reply = .value x → p x = true) ∧
    ((∀ i ≤ n, ¬ TimedOut u i) → ∀ x,
      (timed.reply = .value x ↔ plain.reply = .value x) ∧
        (plain.reply = .value x →
          timed.calls.length = plain.calls.length ∧ timed.left = plain.left)) := by
  intro v plain timed
  refine ⟨fun j within least => ends_of_first own within least,
    fun never => ends_of_never own never,
    fun deadline soon => ⟨fun j within least => timed_ends_of_first soon own within least,
      fun never => timed_ends_of_never soon own never⟩,
    fun far => timed_agrees_of_none far own, fun x given => ?_,
    fun inTime x => timed_returns_iff own inTime x⟩
  exact given.elim (guarded_of_first own) (timed_guarded_of_first own)

/-- Nothing happens during the first wait, a value is stored in the second, and the third stores
another one and times out. -/
def lastMoment : Nat → Update Nat
  | 1 => { store := some 1 }
  | 2 => { store := some 7, timedOut := true }
  | _ => {}

/-- A value that comes together with the timeout is returned, by both forms. -/
theorem follows_updates_of_lastMoment :
    let s : Session Nat := { cell := { value := 0 } }
    let v := valueAt 0 lastMoment
    IsLeast {i | decide (5 ≤ v i) = true} 3 ∧
      (s.perform ⟨0, 0⟩ (.lockWhen (5 ≤ ·)) (events lastMoment 4)).Ends .wait 3 (.value 7) 7
        [(lastMoment 3).event] ∧
      (s.perform ⟨0, 0⟩ (.lockWhenTimeout .zero (5 ≤ ·)) (events lastMoment 4)).Ends .waitUntil 3
        (.value 7) 7 [(lastMoment 3).event] := by
  intro s v
  have first (i : Nat) (met : 5 ≤ v i ∨ TimedOut lastMoment i) : 3 ≤ i := by
    by_contra before
    interval_cases i <;> simp [v, valueAt, lastMoment, TimedOut] at met
  obtain ⟨plain, -, timed, -⟩ :=
    follows_updates (5 ≤ ·) lastMoment s ⟨0, 0⟩ .zero 4 rfl
  have least : IsLeast {i | decide (5 ≤ v i) = true} 3 :=
    ⟨by decide, fun i met => first i (.inl (of_decide_eq_true met))⟩
  refine ⟨least, plain 3 (by decide) least, (timed ⟨0, 0⟩ rfl).1 3 (by decide) ?_⟩
  exact ⟨.inl (by decide), fun i told => first i (told.imp_left of_decide_eq_true)⟩

end Session

end

end Interlock.Condition
