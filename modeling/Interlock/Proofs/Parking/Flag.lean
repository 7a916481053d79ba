import Interlock.Parking.Condvar
import Interlock.Proofs.Parking.Broadcast
import Mathlib.Data.List.Induction

/-!
# One flag for all who wake up

A broadcast on the condition wakes everybody who sleeps (`System.awake_broadcast`), but it leaves
one flag for all of them, and whoever counts itself out takes the flag with it.  So a call that was
woken answers that it was signalled exactly if everybody who has left since the broadcast was
followed by another signal (`Unclaimed`); of the calls that one broadcast has woken, the first to
leave has the flag, and the others have nothing to show for it (`System.broadcast_unreported`).

On a futex each call learns from the kernel that it was woken, and the word is of no importance to
it (`Futex.System.reports_woken`).
-/

namespace Interlock.Parking

namespace Condvar

/-- Whether a parking call counts as parked. -/
def Park.isIn : Park → Bool
  | .asleep | .returning => true
  | _ => false

namespace System

variable {s : System} {p q : Nat}

/-- The system after some moves. -/
def run (s : System) (moves : List Move) : System := moves.foldl move s

theorem run_concat (s : System) (moves : List Move) (m : Move) :
    s.run (moves ++ [m]) = (s.run moves).move m := by
  simp [run]

/-! ## Waking up -/

/-- The calls in a list wake up one after the other. -/
def rouseAll (s : System) (calls : List Nat) : System := calls.foldl rouse s

theorem parks_rouse (s : System) (q p : Nat) :
    (s.rouse q).parks[p]? =
      if p = q then s.parks[p]?.map fun _ => .returning else s.parks[p]? :=
  getElem?_set_eq_map _ s.parks q p

/-- Calls that wake up leave the queue and are about to leave. -/
theorem rouseAll_eq (s : System) (calls : List Nat) :
    s.rouseAll calls =
      { s with
        sleepers := s.sleepers.filter (· ∉ calls)
        parks := setAll .returning calls s.parks } := by
  induction calls generalizing s with
  | nil => rw [filter_notMem_nil]; rfl
  | cons call calls ih =>
    rw [filter_notMem_cons]
    exact ih (s.rouse call)

theorem shared_rouseAll (s : System) (calls : List Nat) :
    (s.rouseAll calls).shared = s.shared := by
  rw [rouseAll_eq]

theorem parks_rouseAll (s : System) (calls : List Nat) (p : Nat) :
    (s.rouseAll calls).parks[p]? =
      if p ∈ calls then s.parks[p]?.map fun _ => .returning else s.parks[p]? := by
  rw [rouseAll_eq]
  exact getElem?_setAll _ calls s.parks p

/-- The queue holds the calls that sleep, and the count is that of the parked calls. -/
abbrev Sound (s : System) : Prop :=
  Parking.Sound .asleep Park.isIn s.sleepers s.parks s.shared.parked

/-! ## Each step, computed -/

section Steps

/-- A call that finds a signal takes it and returns. -/
theorem stepPark_arriving_pending (here : s.parks[q]? = some .arriving)
    (pending : s.shared.pending = true) :
    s.stepPark q =
      { s with
        shared := { pending := false, parked := s.shared.parked }
        parks := s.parks.set q (.returned true) } := by
  simp only [stepPark, here, Condvar.stepPark, pending, leave, ↓reduceIte, Nat.add_sub_cancel]

/-- A call that finds no signal falls asleep. -/
theorem stepPark_arriving_clear (h : Sound s) (here : s.parks[q]? = some .arriving)
    (clear : s.shared.pending = false) :
    s.stepPark q =
      { s with
        shared := { s.shared with parked := s.shared.parked + 1 }
        sleepers := s.sleepers ++ [q]
        parks := s.parks.set q .asleep } := by
  have awake : s.sleepers.contains q = false := by
    simpa using fun asleep => by simp [(h.queued q).1 asleep] at here
  simp only [stepPark, here, Condvar.stepPark, clear, awake, Bool.false_eq_true, ↓reduceIte]

/-- A call that slept counts itself out, and answers what the flag says. -/
theorem stepPark_returning (here : s.parks[q]? = some .returning) :
    s.stepPark q =
      { s with
        shared := { pending := false, parked := s.shared.parked - 1 }
        parks := s.parks.set q (.returned s.shared.pending) } := by
  simp only [stepPark, here, Condvar.stepPark, leave]

/-- A call that sleeps or has returned does not move. -/
theorem stepPark_still (h : Sound s)
    (still : s.parks[q]? = none ∨ s.parks[q]? = some .asleep ∨
      ∃ signalled, s.parks[q]? = some (.returned signalled)) : s.stepPark q = s := by
  rcases still with none | asleep | ⟨signalled, returned⟩
  · simp only [stepPark, none]
  · have queued : s.sleepers.contains q = true := by simpa using (h.queued q).2 asleep
    simp only [stepPark, asleep, Condvar.stepPark, queued, ↓reduceIte,
      set_of_getElem? asleep]
  · simp only [stepPark, returned, Condvar.stepPark, set_of_getElem? returned]

/-- A signal raises the flag and wakes sleepers, if anybody is parked. -/
theorem move_wake (s : System) (signal : Signal) :
    s.move (.wake signal) =
      if s.shared.parked = 0 then s
      else { s with shared.pending := true }.rouseAll (s.sleepers.take (s.reach signal)) := by
  by_cases nobody : s.shared.parked = 0
  · simp only [move, Condvar.signal, nobody, ↓reduceIte]
  · simp only [move, Condvar.signal, nobody, ↓reduceIte]
    rfl

end Steps

/-- Every move keeps the queue and the count. -/
theorem Sound.move (h : Sound s) (m : Move) : Sound (s.move m) := by
  cases m with
  | beginPark => exact h.concat (by simp) rfl
  | park q =>
    show Sound (s.stepPark q)
    cases here : s.parks[q]? with
    | none => rwa [stepPark_still h (.inl here)]
    | some a =>
      cases a with
      | arriving =>
        cases pending : s.shared.pending with
        | true =>
          rw [stepPark_arriving_pending here pending]
          exact h.set here (by simp) (by simp) rfl
        | false =>
          rw [stepPark_arriving_clear h here pending]
          exact h.fallAsleep here (by simp) rfl
      | asleep => rwa [stepPark_still h (.inr (.inl here))]
      | returning =>
        rw [stepPark_returning here]
        exact h.set here (by simp) (by simp) (Nat.sub_add_cancel (h.parked_pos here rfl))
      | returned signalled => rwa [stepPark_still h (.inr (.inr ⟨signalled, here⟩))]
  | wake signal =>
    rw [move_wake]
    split
    · exact h
    · rw [rouseAll_eq]
      exact h.rouseFirst _ (by simp) rfl
  | endSleep q =>
    simp only [System.move]
    split
    · next asleep => exact h.rouse (List.contains_iff_mem.1 asleep) (by simp) rfl
    · exact h

theorem Sound.run (h : Sound s) (moves : List Move) : Sound (s.run moves) := by
  induction moves generalizing s with
  | nil => exact h
  | cons m moves ih => exact ih (h.move m)

/-- Whatever happens, the count is that of the calls in progress that have counted themselves in and
not yet out.  Each of them has a thread of its own, so a machine word is wide enough for it. -/
theorem parked_run (moves : List Move) :
    (run {} moves).shared.parked = (run {} moves).parks.countP Park.isIn :=
  (Sound.run .fresh moves).counted

/-! ## Who sleeps, and who has returned -/

/-- After a broadcast nobody sleeps: whoever did is about to leave. -/
theorem awake_broadcast (h : Sound s) (here : s.parks[p]? = some .asleep) :
    (s.move (.wake .all)).parks[p]? = some .returning ∧
      (s.move (.wake .all)).shared.pending = true ∧
      ∀ q : Nat, (s.move (.wake .all)).parks[q]? ≠ some .asleep := by
  have all : s.sleepers.take (s.reach .all) = s.sleepers := List.take_length
  rw [move_wake, if_neg (Nat.ne_of_gt (h.parked_pos here rfl)), all, shared_rouseAll]
  refine ⟨?_, rfl, fun q => ?_⟩
  · rw [parks_rouseAll, if_pos ((h.queued p).2 here)]
    simp [here]
  · rw [parks_rouseAll]
    split
    · simp
    · next awake => exact fun asleep => awake ((h.queued q).2 asleep)

/-- A call that is about to leave, or has left, is moved by nobody else. -/
theorem parks_move (h : Sound s) {a : Park} (here : s.parks[p]? = some a) (awake : a ≠ .asleep)
    {m : Move} (other : m ≠ .park p) : (s.move m).parks[p]? = some a := by
  have out : p ∉ s.sleepers := by simp [h.queued p, here, awake]
  cases m with
  | beginPark => exact (List.getElem?_append_left (List.getElem?_eq_some_iff.1 here).1).trans here
  | park q =>
    have ne : q ≠ p := fun same => other (by rw [same])
    show (s.stepPark q).parks[p]? = some a
    unfold stepPark
    split
    · exact here
    · split <;> exact (List.getElem?_set_ne ne).trans here
  | wake signal =>
    rw [move_wake]
    split
    · exact here
    · rw [parks_rouseAll, if_neg fun taken => out (List.mem_of_mem_take taken)]
      exact here
  | endSleep q =>
    simp only [move]
    split
    · next asleep =>
      have ne : p ≠ q := fun same => out (same ▸ List.contains_iff_mem.1 asleep)
      rw [parks_rouse, if_neg ne, here]
    · exact here

/-- A call that is awake waits for its own step. -/
theorem parks_run (h : Sound s) {a : Park} (here : s.parks[p]? = some a) (awake : a ≠ .asleep)
    {moves : List Move} (other : .park p ∉ moves) : (s.run moves).parks[p]? = some a := by
  induction moves generalizing s with
  | nil => exact here
  | cons m moves ih =>
    rw [List.mem_cons, not_or] at other
    exact ih (h.move m) (parks_move h here awake (Ne.symm other.1)) other.2

/-- What a call has answered stays its answer. -/
theorem returned_run (h : Sound s) {signalled : Bool}
    (here : s.parks[p]? = some (.returned signalled)) (moves : List Move) :
    (s.run moves).parks[p]? = some (.returned signalled) := by
  induction moves generalizing s with
  | nil => exact here
  | cons m moves ih =>
    refine ih (h.move m) ?_
    by_cases own : m = .park p
    · subst own
      show (s.stepPark p).parks[p]? = _
      rw [stepPark_still h (.inr (.inr ⟨signalled, here⟩)), here]
    · exact parks_move h here (by simp) own

/-! ## Who has the flag -/

/-- A parking call leaves by this move, and takes the flag. -/
def Leaves (s : System) (m : Move) : Prop :=
  ∃ q, m = .park q ∧ (s.parks[q]? = some .returning ∨
    s.parks[q]? = some .arriving ∧ s.shared.pending = true)

/-- Everybody who left during a run was followed by a signal. -/
def Unclaimed (s : System) (moves : List Move) : Prop :=
  ∀ before m after, moves = before ++ m :: after → (s.run before).Leaves m →
    ∃ signal, .wake signal ∈ after

theorem unclaimed_nil (s : System) : s.Unclaimed [] := by
  rintro before m after split
  simp at split

/-- A signal is for everybody who has left so far, and for nobody who leaves later. -/
theorem unclaimed_concat {moves : List Move} {m : Move} :
    s.Unclaimed (moves ++ [m]) ↔
      (∃ signal, m = .wake signal) ∨ ¬ (s.run moves).Leaves m ∧ s.Unclaimed moves := by
  constructor
  · intro h
    by_cases signals : ∃ signal, m = .wake signal
    · exact .inl signals
    · refine .inr ⟨fun leaves => ?_, fun before m' after split leaves => ?_⟩
      · obtain ⟨signal, later⟩ := h moves m [] rfl leaves
        exact absurd later List.not_mem_nil
      · obtain ⟨signal, later⟩ := h before m' (after ++ [m]) (by simp [split]) leaves
        rcases List.mem_append.1 later with later | last
        · exact ⟨signal, later⟩
        · exact absurd ⟨signal, (List.mem_singleton.1 last).symm⟩ signals
  · intro h before m' after split leaves
    rcases List.eq_nil_or_concat after with rfl | ⟨between, last, rfl⟩
    · obtain ⟨rfl, same⟩ := List.append_inj' split rfl
      obtain rfl : m = m' := List.singleton_inj.1 same
      rcases h with ⟨signal, rfl⟩ | ⟨stays, -⟩
      · obtain ⟨q, same, -⟩ := leaves
        cases same
      · exact absurd leaves stays
    · rw [List.concat_eq_append] at split ⊢
      have whole : moves ++ [m] = (before ++ m' :: between) ++ [last] := by simp [split]
      obtain ⟨rfl, same⟩ := List.append_inj' whole rfl
      obtain rfl : m = last := List.singleton_inj.1 same
      rcases h with ⟨signal, rfl⟩ | ⟨-, unclaimed⟩
      · exact ⟨signal, by simp⟩
      · obtain ⟨signal, later⟩ := unclaimed before m' between rfl leaves
        exact ⟨signal, List.mem_append_left _ later⟩

/-- One move raises the flag, takes it, or leaves it alone. -/
theorem pending_move (h : Sound s) (parked : s.shared.parked ≠ 0) (m : Move) :
    (s.move m).shared.pending = true ↔
      (∃ signal, m = .wake signal) ∨ ¬ s.Leaves m ∧ s.shared.pending = true := by
  have alone {m : Move} (unsignalled : ∀ signal, m ≠ .wake signal) (stays : ¬ s.Leaves m) :
      s.shared.pending = true ↔
        (∃ signal, m = .wake signal) ∨ ¬ s.Leaves m ∧ s.shared.pending = true := by
    simp [unsignalled, stays]
  have taken {m : Move} (unsignalled : ∀ signal, m ≠ .wake signal) (leaves : s.Leaves m) :
      false = true ↔ (∃ signal, m = .wake signal) ∨ ¬ s.Leaves m ∧ s.shared.pending = true := by
    simp [unsignalled, leaves]
  cases m with
  | wake signal =>
    rw [move_wake, if_neg parked, shared_rouseAll]
    simp
  | beginPark => exact alone (by simp) fun ⟨q, same, _⟩ => nomatch same
  | endSleep q =>
    have same : (s.move (.endSleep q)).shared = s.shared := by
      simp only [move]
      split <;> rfl
    rw [same]
    exact alone (by simp) fun ⟨q, same, _⟩ => nomatch same
  | park q =>
    have stays (still : ¬ (s.parks[q]? = some .returning ∨
        s.parks[q]? = some .arriving ∧ s.shared.pending = true)) : ¬ s.Leaves (.park q) := by
      rintro ⟨q', same, leaves⟩
      cases same
      exact still leaves
    show (s.stepPark q).shared.pending = true ↔ _
    cases here : s.parks[q]? with
    | none =>
      rw [stepPark_still h (.inl here)]
      exact alone (by simp) (stays (by simp [here]))
    | some a =>
      cases a with
      | arriving =>
        cases pending : s.shared.pending with
        | true =>
          rw [stepPark_arriving_pending here pending]
          simpa only [pending] using taken (by simp) ⟨q, rfl, .inr ⟨here, pending⟩⟩
        | false =>
          rw [stepPark_arriving_clear h here pending, ← pending]
          exact alone (by simp) (stays (by simp [here, pending]))
      | asleep =>
        rw [stepPark_still h (.inr (.inl here))]
        exact alone (by simp) (stays (by simp [here]))
      | returning =>
        rw [stepPark_returning here]
        exact taken (by simp) ⟨q, rfl, .inl here⟩
      | returned signalled =>
        rw [stepPark_still h (.inr (.inr ⟨signalled, here⟩))]
        exact alone (by simp) (stays (by simp [here]))

/-- While a call is about to leave, the flag is up exactly if everybody who left since it was raised
was followed by a signal. -/
theorem pending_run (h : Sound s) (here : s.parks[p]? = some .returning)
    (raised : s.shared.pending = true) {moves : List Move} (waits : .park p ∉ moves) :
    (s.run moves).shared.pending = true ↔ s.Unclaimed moves := by
  induction moves using List.reverseRecOn with
  | nil => exact iff_of_true raised s.unclaimed_nil
  | append_singleton moves m ih =>
    rw [List.mem_append, not_or] at waits
    have still := parks_run h here (by simp) waits.1
    have parked := Nat.ne_of_gt ((h.run moves).parked_pos still rfl)
    rw [run_concat, unclaimed_concat, pending_move (h.run moves) parked, ih waits.1]

/-! ## What a broadcast is worth -/

/-- **Who hears of a broadcast.**  When a broadcast comes nobody sleeps on, and whoever slept leaves
with its next step.  What it answers then stands, and says that it was signalled exactly if all who
have left since the broadcast, newcomers included, were followed by a signal. -/
theorem broadcast_reported {before moves : List Move}
    (asleep : (run {} before).parks[p]? = some .asleep) (waits : .park p ∉ moves) :
    let woken := (run {} before).move (.wake .all)
    let t := woken.run moves
    (∀ q : Nat, woken.parks[q]? ≠ some .asleep) ∧ t.parks[p]? = some .returning ∧
      ∃ signalled, (signalled = true ↔ woken.Unclaimed moves) ∧
        ∀ later, ((t.move (.park p)).run later).parks[p]? = some (.returned signalled) := by
  intro woken t
  have sound : Sound woken := (Sound.run .fresh before).move _
  obtain ⟨here, raised, nobody⟩ := awake_broadcast (Sound.run .fresh before) asleep
  have still : t.parks[p]? = some .returning := parks_run sound here (by simp) waits
  refine ⟨nobody, still, t.shared.pending, pending_run sound here raised waits, fun later => ?_⟩
  refine returned_run ((sound.run moves).move _) ?_ later
  show (t.stepPark p).parks[p]? = _
  rw [stepPark_returning still]
  exact List.getElem?_set_self (List.getElem?_eq_some_iff.1 still).1

/-- Two calls sleep when a broadcast comes.  The second one leaves first, a newcomer falls asleep,
and a signal meant for it is what the first one reports. -/
theorem broadcast_reported_of_two :
    let s := run {} [.beginPark, .park 0, .beginPark, .park 1]
    let moves : List Move := [.park 1, .beginPark, .park 2, .wake .one]
    s.parks = [.asleep, .asleep] ∧ .park 0 ∉ moves ∧
      ((s.move (.wake .all)).run moves).parks =
        [.returning, .returned true, .returning] ∧
      ∃ signalled, (signalled = true ↔ (s.move (.wake .all)).Unclaimed moves) ∧
        ∀ later, ((((s.move (.wake .all)).run moves).move (.park 0)).run later).parks[0]? =
          some (.returned signalled) := by
  intro s moves
  have asleep : s.parks[0]? = some .asleep := by decide
  have waits : .park 0 ∉ moves := by decide
  exact ⟨by decide, waits, by decide, (broadcast_reported asleep waits).2.2⟩

/-- **A broadcast goes unreported.**  Two calls sleep when a broadcast comes, and the second one to
leave answers that there was no signal; and a single sleeper loses its broadcast to a newcomer. -/
theorem broadcast_unreported :
    (run {} [.beginPark, .park 0, .beginPark, .park 1]).parks = [.asleep, .asleep] ∧
      (run {} [.beginPark, .park 0, .beginPark, .park 1, .wake .all, .park 0, .park 1]).parks =
        [.returned true, .returned false] ∧
      (run {} [.beginPark, .park 0]).parks = [.asleep] ∧
      (run {} [.beginPark, .park 0, .wake .all, .beginPark, .park 1, .park 0]).parks =
        [.returned false, .returned true] := by
  decide

end System

end Condvar

/-! ## On a futex -/

namespace Futex

/-- Where a call stands that a signal has woken. -/
def Park.IsWoken : Park → Prop
  | .collecting ending => ending = .woken
  | .leaving signalled => signalled = true
  | .returned signalled => signalled = true
  | _ => False

namespace System

variable {s : System} {p : Nat}

/-- A call that a signal has woken is on its way to report it, whatever others do. -/
theorem woken_move (h : Sound s) {a : Park} (here : s.parks[p]? = some a) (woken : a.IsWoken)
    (m : Move) : ∃ a', (s.move m).parks[p]? = some a' ∧ a'.IsWoken := by
  have out : p ∉ s.sleepers := by
    rw [h.queued p, here]
    rintro ⟨⟩
    exact woken
  cases m with
  | beginPark =>
    exact ⟨a, (List.getElem?_append_left (List.getElem?_eq_some_iff.1 here).1).trans here, woken⟩
  | beginWake signal => exact ⟨a, here, woken⟩
  | wake v =>
    refine ⟨a, ?_, woken⟩
    show (s.stepWake v).parks[p]? = some a
    unfold stepWake
    split
    · exact here
    · next signal _ =>
      show (s.rouseAll (s.sleepers.take (wakeCount signal))).parks[p]? = some a
      rw [parks_rouseAll, if_neg fun taken => out (List.mem_of_mem_take taken), here]
    · exact here
  | endSleep q code =>
    refine ⟨a, ?_, woken⟩
    simp only [move]
    split
    · next asleep =>
      have ne : p ≠ q := fun same => out (same ▸ List.contains_iff_mem.1 asleep)
      rw [parks_rouse, if_neg ne, here]
    · exact here
  | park q =>
    by_cases own : q = p
    · subst own
      have set (a' : Park) : (s.parks.set q a')[q]? = some a' :=
        List.getElem?_set_self (List.getElem?_eq_some_iff.1 here).1
      show ∃ a', (s.stepPark q).parks[q]? = some a' ∧ a'.IsWoken
      simp only [stepPark, here]
      cases a with
      | collecting ending =>
        cases woken
        exact ⟨_, set _, by simp [Futex.stepPark, Park.IsWoken]⟩
      | leaving signalled => exact ⟨_, set _, woken⟩
      | returned signalled => exact ⟨_, set _, woken⟩
      | arriving | consuming | sleeping | asleep => exact woken.elim
    · exact ⟨a, (parks_stepPark_of_ne s own).trans here, woken⟩

/-- On a futex every call that a signal has woken answers that it was signalled, whatever others do
before it leaves. -/
theorem reports_woken {before : List Move}
    (here : (run {} before).parks[p]? = some (.collecting .woken))
    {moves : List Move} {signalled : Bool}
    (left : ((run {} before).run moves).parks[p]? = some (.returned signalled)) :
    signalled = true := by
  have kept (moves : List Move) : ∀ s : System, Sound s →
      (∃ a, s.parks[p]? = some a ∧ a.IsWoken) →
        ∃ a, (s.run moves).parks[p]? = some a ∧ a.IsWoken := by
    induction moves with
    | nil => exact fun s _ woken => woken
    | cons m moves ih =>
      rintro s sound ⟨a, here, woken⟩
      exact ih _ (sound.move m) (woken_move sound here woken m)
  obtain ⟨a, found, woken⟩ := kept moves _ (Sound.run .fresh before) ⟨_, here, rfl⟩
  obtain rfl : a = .returned signalled := Option.some.inj (found.symm.trans left)
  exact woken

end System

end Futex

end Interlock.Parking
