import Interlock.Parking.Futex
import Interlock.Proofs.Parking.Queue

/-!
# What becomes of a broadcast

A parking call that has counted itself in is about to take the word, about to fall asleep, asleep,
or on its way out.  A broadcast wakes those that are asleep, and means the others to find the
pending signal in the word.  There is one word for all of them, however, and whoever takes the
signal takes it away from the others (`System.Robs`): a call that is about to fall asleep can lose
the signal to another one and sleep on.

A call that is not robbed does not miss the broadcast (`System.Hears.run`), as long as no more calls
sleep than the kernel wakes at once.
-/

namespace Interlock.Parking

namespace Futex

/-- Whether a parking call counts as parked. -/
def Park.isIn : Park → Bool
  | .arriving | .returned _ => false
  | _ => true

/-- Whether a signalling call that found somebody parked has stored its signal. -/
def Wake.hasStored : Wake → Bool
  | .waking | .finished => true
  | _ => false

namespace System

variable {s : System} {p q w : Nat}

/-- The system after some moves. -/
def run (s : System) (moves : List Move) : System := moves.foldl move s

/-- The calls in a list wake up one after the other. -/
def rouseAll (s : System) (calls : List Nat) : System :=
  calls.foldl (fun s call => s.rouse call .woken) s

theorem wakeSleepers_eq (s : System) (count : Nat) :
    s.wakeSleepers count = s.rouseAll (s.sleepers.take count) := rfl

/-! ## Waking up -/

theorem parks_rouse (s : System) (q : Nat) (ending : SleepEnd) (p : Nat) :
    (s.rouse q ending).parks[p]? =
      if p = q then s.parks[p]?.map fun _ => .collecting ending else s.parks[p]? :=
  getElem?_set_eq_map _ s.parks q p

/-- Calls that wake up leave the queue and go on to look at the word. -/
theorem rouseAll_eq (s : System) (calls : List Nat) :
    s.rouseAll calls =
      { s with
        sleepers := s.sleepers.filter (· ∉ calls)
        parks := setAll (.collecting .woken) calls s.parks } := by
  induction calls generalizing s with
  | nil => rw [filter_notMem_nil]; rfl
  | cons call calls ih =>
    rw [filter_notMem_cons]
    exact ih (s.rouse call .woken)

theorem shared_rouseAll (s : System) (calls : List Nat) : (s.rouseAll calls).shared = s.shared := by
  rw [rouseAll_eq]

theorem wakes_rouseAll (s : System) (calls : List Nat) : (s.rouseAll calls).wakes = s.wakes := by
  rw [rouseAll_eq]

theorem parks_rouseAll (s : System) (calls : List Nat) (p : Nat) :
    (s.rouseAll calls).parks[p]? =
      if p ∈ calls then s.parks[p]?.map fun _ => .collecting .woken else s.parks[p]? := by
  rw [rouseAll_eq]
  exact getElem?_setAll _ calls s.parks p

/-! ## The queue and the count -/

/-- The kernel's queue holds the calls that sleep, and the count is that of the parked calls. -/
abbrev Sound (s : System) : Prop :=
  Parking.Sound .asleep Park.isIn s.sleepers s.parks s.shared.parked

namespace Sound

/-- A step of a parking call keeps the queue and the count. -/
theorem stepPark (h : Sound s) (q : Nat) : Sound (s.stepPark q) := by
  unfold System.stepPark
  split
  · exact h
  · next here =>
    unfold System.fallAsleep
    split
    · exact h.fallAsleep here (by simp) rfl
    · exact h.set here (by simp) (by simp) rfl
  · next a other here =>
    cases a with
    | sleeping => exact absurd rfl other
    | asleep =>
      simp only [Futex.stepPark, set_of_getElem? here]
      exact h
    | arriving => exact h.set here (by simp) (by simp [Futex.stepPark]) rfl
    | consuming =>
      simp only [Futex.stepPark]
      split <;> exact h.set here (by simp) (by simp) rfl
    | collecting ending => exact h.set here (by simp) (by simp [Futex.stepPark]) rfl
    | leaving signalled =>
      have counted := Nat.sub_add_cancel (h.parked_pos here rfl)
      exact h.set here (by simp) (by simp [Futex.stepPark]) counted
    | returned signalled => exact h.set here (by simp) (by simp [Futex.stepPark]) rfl

/-- A step of a signalling call keeps the queue and the count. -/
theorem stepWake (h : Sound s) (v : Nat) : Sound (s.stepWake v) := by
  unfold System.stepWake
  split
  · exact h
  · next signal here =>
    simp only [wakeSleepers_eq, rouseAll_eq]
    exact h.rouseFirst _ (by simp) rfl
  · next signal wake other here =>
    have kept : (Futex.stepWake s.shared wake).1.parked = s.shared.parked := by
      cases wake <;> rfl
    exact ⟨h.queued, h.distinct, kept.trans h.counted⟩

/-- Every move keeps the queue and the count. -/
theorem move (h : Sound s) (m : Move) : Sound (s.move m) := by
  cases m with
  | beginPark => exact h.concat (by simp) rfl
  | beginWake signal => exact h
  | park q => exact h.stepPark q
  | wake v => exact h.stepWake v
  | endSleep q code =>
    simp only [System.move]
    split
    · next asleep => exact h.rouse (List.contains_iff_mem.1 asleep) (by simp) rfl
    · exact h

theorem run (h : Sound s) (moves : List Move) : Sound (s.run moves) := by
  induction moves generalizing s with
  | nil => exact h
  | cons m moves ih => exact ih (h.move m)

end Sound

/-- Whatever happens, the count is that of the calls in progress that have counted themselves in and
not yet out.  Each of them has a thread of its own, so a machine word is wide enough for it. -/
theorem parked_run (moves : List Move) :
    (run {} moves).shared.parked = (run {} moves).parks.countP Park.isIn :=
  (Sound.run .fresh moves).counted

/-! ## Calls that wait for a broadcast -/

/-- A parking call is asleep, or its next step puts it to sleep. -/
def Misses (s : System) (p : Nat) : Prop :=
  s.parks[p]? = some .asleep ∨ (s.parks[p]? = some .sleeping ∧ s.shared.word = 0)

/-- One call takes the signal of the broadcast `w` away from another one, which has not fallen
asleep yet. -/
structure Robs (s : System) (w q p : Nat) : Prop where
  other : q ≠ p
  pending : s.shared.word ≠ 0
  stored : ∃ wake, s.wakes[w]? = some (.all, wake) ∧ wake.hasStored = true
  takes : s.parks[q]? = some .consuming ∨ ∃ ending, s.parks[q]? = some (.collecting ending)
  awake : s.parks[p]? = some .consuming ∨ s.parks[p]? = some .sleeping

/-- Where a parked call may stand when a broadcast has come so far, if it is not to miss it. -/
def Heard (wake : Wake) (word : UInt32) : Park → Prop
  | .arriving => False
  | .consuming => wake.hasStored = true → word ≠ 0
  | .sleeping => wake.hasStored = true → word ≠ 0
  | .asleep => wake ≠ .finished
  | _ => True

/-- The call `p` has not missed the broadcast `w`. -/
def Hears (s : System) (w p : Nat) : Prop :=
  ∃ wake a, s.wakes[w]? = some (.all, wake) ∧ s.parks[p]? = some a ∧ Heard wake s.shared.word a

/-- Only a call that is about to take the word or to fall asleep depends on the word. -/
theorem Heard.of_word {wake : Wake} {word word' : UInt32} {a : Park} (h : Heard wake word a)
    (kept : (a = .consuming ∨ a = .sleeping) → wake.hasStored = true → word' ≠ 0) :
    Heard wake word' a := by
  cases a with
  | consuming => exact kept (.inl rfl)
  | sleeping => exact kept (.inr rfl)
  | _ => exact h

/-- Before the signal is stored, nothing is asked of a call that has counted itself in. -/
theorem Heard.of_unstored {word : UInt32} {a : Park} (h : Heard .looking word a) :
    Heard .storing word a := by
  cases a with
  | asleep => simp [Heard]
  | arriving => exact h
  | consuming | sleeping => simp [Heard, Wake.hasStored]
  | _ => trivial

/-- When the signal is stored, it is there for everybody. -/
theorem Heard.of_stored {word : UInt32} {a : Park} (h : Heard .storing word a) :
    Heard .waking 1 a := by
  cases a with
  | asleep => simp [Heard]
  | arriving => exact h
  | consuming | sleeping => simp [Heard]
  | _ => trivial

/-- When the sleepers were woken, all who are awake have heard. -/
theorem Heard.of_awake {word : UInt32} {a : Park} (h : Heard .waking word a) (awake : a ≠ .asleep) :
    Heard .finished word a := by
  cases a with
  | asleep => exact absurd rfl awake
  | _ => exact h

/-- A broadcast that finds nobody parked is missed by nobody. -/
theorem Heard.of_nobody {word : UInt32} {a : Park} (h : Heard .looking word a) (sound : Sound s)
    (hp : s.parks[p]? = some a) (nobody : s.shared.parked = 0) : Heard .finished word a := by
  have outside : ¬ a.isIn = true := by
    intro isIn
    rw [sound.counted] at nobody
    exact List.countP_eq_zero.1 nobody a (List.mem_of_getElem? hp) isIn
  cases a with
  | arriving => exact h
  | returned signalled => trivial
  | _ => exact absurd rfl outside

/-- A call that heard a broadcast to its end has not missed it. -/
theorem Hears.not_misses (h : s.Hears w p) (ended : s.wakes[w]? = some (.all, .finished)) :
    ¬ s.Misses p := by
  obtain ⟨wake, a, hw, hp, heard⟩ := h
  obtain rfl : wake = .finished := by simpa [ended] using hw.symm
  rintro (asleep | ⟨sleeping, zero⟩)
  · obtain rfl : a = .asleep := by simpa [asleep] using hp.symm
    exact heard rfl
  · obtain rfl : a = .sleeping := by simpa [sleeping] using hp.symm
    exact heard rfl zero

/-- A step of a call leaves the word alone unless it takes it. -/
theorem word_stepPark (s : System) (q : Nat)
    (idle : ¬ (s.parks[q]? = some .consuming ∨ ∃ ending, s.parks[q]? = some (.collecting ending))) :
    (s.stepPark q).shared.word = s.shared.word := by
  unfold System.stepPark
  split
  · rfl
  · unfold System.fallAsleep
    split <;> rfl
  · next a other here =>
    cases a with
    | consuming => exact absurd (.inl here) idle
    | collecting ending => exact absurd (.inr ⟨ending, here⟩) idle
    | _ => rfl

theorem wakes_stepPark (s : System) (q : Nat) : (s.stepPark q).wakes = s.wakes := by
  unfold System.stepPark System.fallAsleep
  split
  · rfl
  · split <;> rfl
  · rfl

theorem parks_stepPark_of_ne (s : System) (other : q ≠ p) :
    (s.stepPark q).parks[p]? = s.parks[p]? := by
  unfold System.stepPark System.fallAsleep
  split
  · rfl
  · split <;> exact List.getElem?_set_ne other
  · exact List.getElem?_set_ne other

namespace Hears

/-- A call does not miss a broadcast by its own step. -/
theorem stepPark_self (h : s.Hears w p) : (s.stepPark p).Hears w p := by
  obtain ⟨wake, a, hw, hp, heard⟩ := h
  have moved (park : Park) : (s.parks.set p park)[p]? = some park :=
    List.getElem?_set_self (List.getElem?_eq_some_iff.1 hp).1
  suffices after : ∃ a', (s.stepPark p).parks[p]? = some a' ∧
      Heard wake (s.stepPark p).shared.word a' by
    obtain ⟨a', hp', heard'⟩ := after
    exact ⟨wake, a', by rw [wakes_stepPark, hw], hp', heard'⟩
  simp only [System.stepPark, hp]
  cases a with
  | arriving => exact absurd heard id
  | consuming =>
    by_cases pending : s.shared.word = 0
    · have unstored : ¬ wake.hasStored = true := fun stored => heard stored pending
      simp only [Futex.stepPark, pending, ne_eq, not_true_eq_false, ↓reduceIte]
      exact ⟨.sleeping, moved _, fun stored => absurd stored unstored⟩
    · simp only [Futex.stepPark, pending, ne_eq, not_false_eq_true, ↓reduceIte]
      exact ⟨.leaving true, moved _, trivial⟩
  | sleeping =>
    by_cases pending : s.shared.word = 0
    · -- it sleeps before the signal is stored, and so before the sleepers are woken
      have unended : wake ≠ .finished := by
        rintro rfl
        exact heard rfl pending
      simp only [System.fallAsleep, pending, ↓reduceIte]
      exact ⟨.asleep, moved _, unended⟩
    · simp only [System.fallAsleep, pending, ↓reduceIte]
      exact ⟨.collecting _, moved _, trivial⟩
  | asleep => exact ⟨.asleep, moved _, heard⟩
  | collecting ending => exact ⟨.leaving _, moved _, trivial⟩
  | leaving signalled => exact ⟨.returned signalled, moved _, trivial⟩
  | returned signalled => exact ⟨.returned signalled, moved _, trivial⟩

/-- A call does not miss a broadcast by the step of one that does not rob it. -/
theorem stepPark (h : s.Hears w p) (q : Nat) (unrobbed : ¬ s.Robs w q p) :
    (s.stepPark q).Hears w p := by
  by_cases other : q = p
  · subst other
    exact h.stepPark_self
  · obtain ⟨wake, a, hw, hp, heard⟩ := h
    refine ⟨wake, a, by rw [wakes_stepPark, hw], by rw [parks_stepPark_of_ne s other, hp], ?_⟩
    refine heard.of_word fun awake stored => ?_
    have pending : s.shared.word ≠ 0 := by
      rcases awake with rfl | rfl
      · exact heard stored
      · exact heard stored
    rw [word_stepPark]
    · exact pending
    · intro takes
      refine unrobbed ⟨other, pending, ⟨wake, hw, stored⟩, takes, ?_⟩
      rcases awake with rfl | rfl
      · exact .inl hp
      · exact .inr hp

/-- A call whose sleep ends does not miss a broadcast. -/
theorem rouse (h : s.Hears w p) (q : Nat) (ending : SleepEnd) : (s.rouse q ending).Hears w p := by
  obtain ⟨wake, a, hw, hp, heard⟩ := h
  by_cases same : p = q
  · refine ⟨wake, .collecting ending, hw, ?_, trivial⟩
    rw [parks_rouse, if_pos same, hp]
    rfl
  · refine ⟨wake, a, hw, ?_, heard⟩
    rw [parks_rouse, if_neg same, hp]

theorem rouseAll (h : s.Hears w p) (calls : List Nat) : (s.rouseAll calls).Hears w p := by
  induction calls generalizing s with
  | nil => exact h
  | cons call calls ih => exact ih (h.rouse call .woken)

/-- When a broadcast wakes the sleepers, it wakes all of them. -/
theorem wakeSleepers (h : s.Hears w p) (sound : Sound s)
    (few : s.sleepers.length ≤ wakeCount .all) {signal : Signal}
    (here : s.wakes[w]? = some (signal, .waking)) :
    ({ s.wakeSleepers (wakeCount signal) with
      wakes := (s.wakeSleepers (wakeCount signal)).wakes.set w (signal, .finished) } :
        System).Hears w p := by
  obtain ⟨wake, a, hw, hp, heard⟩ := h
  obtain ⟨rfl, rfl⟩ : signal = .all ∧ .waking = wake := by simpa [here] using hw
  have all : s.sleepers.take (wakeCount .all) = s.sleepers := List.take_of_length_le few
  have ended : (s.wakes.set w (.all, .finished))[w]? = some (.all, .finished) :=
    List.getElem?_set_self (List.getElem?_eq_some_iff.1 hw).1
  rw [wakeSleepers_eq, all, wakes_rouseAll]
  by_cases asleep : p ∈ s.sleepers
  · refine ⟨.finished, .collecting .woken, ended, ?_, trivial⟩
    simp only [parks_rouseAll, asleep, ↓reduceIte, hp, Option.map_some]
  · have awake : a ≠ .asleep := by
      rintro rfl
      exact asleep ((sound.queued p).2 hp)
    refine ⟨.finished, a, ended, ?_, ?_⟩
    · simp only [parks_rouseAll, asleep, ↓reduceIte, hp]
    · simp only [shared_rouseAll]
      exact heard.of_awake awake

/-- A call does not miss a broadcast by the step of a signal. -/
theorem stepWake (h : s.Hears w p) (sound : Sound s) (few : s.sleepers.length ≤ wakeCount .all)
    (v : Nat) : (s.stepWake v).Hears w p := by
  unfold System.stepWake
  split
  · exact h
  · next signal here =>
    by_cases other : v = w
    · subst other
      exact h.wakeSleepers sound few here
    · obtain ⟨wake, a, hw, hp, heard⟩ := h.rouseAll (s.sleepers.take (wakeCount signal))
      exact ⟨wake, a, (List.getElem?_set_ne other).trans hw, hp, heard⟩
  · next signal phase unwaking here =>
    obtain ⟨wake, a, hw, hp, heard⟩ := h
    by_cases other : v = w
    · subst other
      obtain ⟨rfl, rfl⟩ : signal = .all ∧ phase = wake := by simpa [here] using hw
      have set (next : Wake) : (s.wakes.set v (.all, next))[v]? = some (.all, next) :=
        List.getElem?_set_self (List.getElem?_eq_some_iff.1 hw).1
      cases phase with
      | looking =>
        simp only [Futex.stepWake]
        split
        · next nobody => exact ⟨.finished, a, set _, hp, heard.of_nobody sound hp nobody⟩
        · exact ⟨.storing, a, set _, hp, heard.of_unstored⟩
      | storing => exact ⟨.waking, a, set _, hp, heard.of_stored⟩
      | waking => exact absurd rfl unwaking
      | finished => exact ⟨.finished, a, set _, hp, heard⟩
    · refine ⟨wake, a, (List.getElem?_set_ne other).trans hw, hp, ?_⟩
      cases phase with
      | storing => exact heard.of_word fun _ _ => by simp [Futex.stepWake]
      | looking | waking | finished => exact heard

/-- A call that nobody robs does not miss a broadcast. -/
theorem move (h : s.Hears w p) (sound : Sound s) (few : s.sleepers.length ≤ wakeCount .all)
    (m : Move) (unrobbed : ∀ q, m = .park q → ¬ s.Robs w q p) : (s.move m).Hears w p := by
  cases m with
  | beginPark =>
    obtain ⟨wake, a, hw, hp, heard⟩ := h
    refine ⟨wake, a, hw, ?_, heard⟩
    exact (List.getElem?_append_left (List.getElem?_eq_some_iff.1 hp).1).trans hp
  | beginWake signal =>
    obtain ⟨wake, a, hw, hp, heard⟩ := h
    refine ⟨wake, a, ?_, hp, heard⟩
    exact (List.getElem?_append_left (List.getElem?_eq_some_iff.1 hw).1).trans hw
  | park q => exact h.stepPark q (unrobbed q rfl)
  | wake v => exact h.stepWake sound few v
  | endSleep q code =>
    simp only [System.move]
    split
    · exact h.rouse q _
    · exact h

end Hears

/-- Nobody takes the signal of the broadcast `w` away from the call `p` during a run, and no more
calls sleep than the kernel can wake at once. -/
def Undisturbed (w p : Nat) : System → List Move → Prop
  | _, [] => True
  | s, m :: moves => s.sleepers.length ≤ wakeCount .all ∧ (∀ q, m = .park q → ¬ s.Robs w q p) ∧
      Undisturbed w p (s.move m) moves

/-- A call that nobody robs during a run does not miss a broadcast. -/
theorem Hears.run (h : s.Hears w p) (sound : Sound s) {moves : List Move}
    (undisturbed : Undisturbed w p s moves) : (s.run moves).Hears w p := by
  induction moves generalizing s with
  | nil => exact h
  | cons m moves ih =>
    obtain ⟨few, unrobbed, later⟩ := undisturbed
    exact ih (h.move sound few m unrobbed) (sound.move m) later

/-- **What a broadcast does reach.**  A call that has counted itself in when a broadcast looks is
not asleep when the broadcast has finished, and will not fall asleep, provided that no other call
takes the signal from it before it sleeps. -/
theorem broadcast_heard {before moves : List Move} {a : Park}
    (looks : (run {} before).wakes[w]? = some (.all, .looking))
    (counted : (run {} before).parks[p]? = some a) (arrived : a ≠ .arriving)
    (undisturbed : Undisturbed w p (run {} before) moves)
    (ended : ((run {} before).run moves).wakes[w]? = some (.all, .finished)) :
    ¬ ((run {} before).run moves).Misses p := by
  have hears : (run {} before).Hears w p := by
    refine ⟨.looking, a, looks, counted, ?_⟩
    cases a with
    | arriving => exact absurd rfl arrived
    | consuming | sleeping => exact fun stored => by cases stored
    | asleep => simp [Heard]
    | _ => trivial
  exact (hears.run (Sound.run .fresh before) undisturbed).not_misses ended

/-- One call sleeps and another one is about to; the second one finds the signal in the word, takes
it, and the first one is woken. -/
theorem broadcast_heard_of_asleep :
    let s := run {} [.beginPark, .park 0, .park 0, .park 0, .beginPark, .park 1, .park 1,
      .beginWake .all]
    let moves : List Move := [.wake 0, .wake 0, .park 1, .park 1, .wake 0]
    Undisturbed 0 0 s moves ∧ (s.run moves).parks[0]? = some (.collecting .woken) ∧
      ¬ (s.run moves).Misses 0 := by
  have undisturbed : Undisturbed 0 0 (run {} [.beginPark, .park 0, .park 0, .park 0, .beginPark,
      .park 1, .park 1, .beginWake .all]) [.wake 0, .wake 0, .park 1, .park 1, .wake 0] := by
    refine ⟨by decide, nofun, by decide, nofun, by decide, ?_, by decide, ?_, by decide, nofun,
      trivial⟩
    all_goals
      rintro q ⟨⟩ robs
      exact absurd robs.awake (by decide)
  exact ⟨undisturbed, by decide, broadcast_heard (a := .asleep) (by decide) (by decide) (by decide)
    undisturbed (by decide)⟩

/-- **A broadcast can be lost.**  A call that has counted itself in is about to sleep when a
broadcast comes and goes; a second call arrives and takes the signal, and the first one falls asleep
after the broadcast has finished. -/
theorem broadcast_lost :
    let s := run {} [.beginPark, .park 0, .park 0, .beginWake .all]
    let t := s.run [.wake 0, .wake 0, .wake 0, .beginPark, .park 1, .park 1]
    s.wakes[0]? = some (.all, .looking) ∧ s.parks[0]? = some .sleeping ∧
      t.wakes[0]? = some (.all, .finished) ∧ t.parks[1]? = some (.leaving true) ∧
      (t.move (.park 0)).parks[0]? = some .asleep := by
  decide

end System

end Futex

end Interlock.Parking
