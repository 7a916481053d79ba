import Interlock.Proofs.Parking.Alone
import Interlock.Proofs.Pool.Run
import Mathlib.Algebra.Group.Int.Defs
import Mathlib.Algebra.Group.Nat.Defs

/-!
# How long a submitter sleeps

A submitter that finds no idle worker parks for the time that the pool was configured with.  The
operating system counts seconds in signed words, and the seconds of a span are handed over bit by
bit: a span of less than 2^63 seconds arrives as it is (`Duration.toNanos_toTimespec`), and a longer
one arrives as a negative time, of which the kernel makes nothing.

So a pool whose configured time is short enough never has a sleep refused (`patient_run`), and one
whose time is too long, which no check of its configuration prevents, has its submitters go round
without sleeping at all (`Lot.spins`, `exists_sleepless`).
-/

namespace Interlock

/-! ## Spans -/

/-- Whether a span is one that the operating system accepts. -/
def Timespec.IsProper (t : Timespec) : Prop :=
  0 ≤ t.sec.toInt ∧ 0 ≤ t.nsec.toInt ∧ t.nsec.toInt < 1000000000

instance (t : Timespec) : Decidable t.IsProper := inferInstanceAs (Decidable (_ ∧ _ ∧ _))

/-- The span in nanoseconds. -/
def Timespec.toNanos (t : Timespec) : Int := t.sec.toInt * 1000000000 + t.nsec.toInt

namespace Duration

variable (d : Duration)

theorem sec_toTimespec : d.toTimespec.sec.toInt =
    if d.secs.toNat < 2 ^ 63 then (d.secs.toNat : Int) else d.secs.toNat - 2 ^ 64 := by
  have word : d.toTimespec.sec.toInt = d.secs.toBitVec.toInt := rfl
  rw [word, BitVec.toInt_eq_toNat_cond, UInt64.toNat_toBitVec]
  split <;> split <;> omega

theorem nsec_toTimespec : d.toTimespec.nsec.toInt = d.nanos := by
  have bound := d.nanos_lt
  rw [toTimespec, Int64.toInt_ofNat_of_lt (by omega)]

/-- A span is accepted if its seconds fit into a signed word, -/
theorem isProper_toTimespec : d.toTimespec.IsProper ↔ d.secs.toNat < 2 ^ 63 := by
  have bound := d.nanos_lt
  have word := d.secs.toNat_lt
  rw [Timespec.IsProper, sec_toTimespec, nsec_toTimespec]
  split <;> omega

/-- and it is what it was then. -/
theorem toNanos_toTimespec (fits : d.secs.toNat < 2 ^ 63) :
    d.toTimespec.toNanos = (d.toNanos : Int) := by
  rw [Timespec.toNanos, sec_toTimespec, nsec_toTimespec, if_pos fits, toNanos]
  omega

/-- Milliseconds in a word never come to so much. -/
theorem fits_ofMillis (ms : UInt64) : (Duration.ofMillis ms).secs.toNat < 2 ^ 63 := by
  have word := ms.toNat_lt
  show (ms / 1000).toNat < 2 ^ 63
  rw [UInt64.toNat_div]
  show ms.toNat / 1000 < 2 ^ 63
  omega

end Duration

/-! ## The kernel -/

namespace Parking

open Futex (Solo Call)

/-- What happens in a sleep, given what went before and the span that was handed over. -/
abbrev Kernel := Solo → Option Timespec → Sleep

namespace Kernel

/-- An argument is refused only if it is a span that nobody could accept. -/
def IsLawful (kernel : Kernel) : Prop :=
  ∀ place span, (kernel place span).ending = .failed Errno.einval →
    ∃ t, span = some t ∧ ¬ t.IsProper

/-- Such a span is refused at once. -/
def IsStrict (kernel : Kernel) : Prop :=
  ∀ place t, ¬ t.IsProper → kernel place (some t) = { during := [], ending := .failed Errno.einval }

/-- A kernel in whose sleeps nothing happens. -/
def quiet : Kernel
  | _, none => { ending := .failed Errno.eintr }
  | _, some t => { ending := .failed (if t.IsProper then Errno.etimedout else Errno.einval) }

theorem isLawful_quiet : quiet.IsLawful := by
  rintro place (_ | t) refused
  · simp [quiet, Errno.eintr, Errno.einval] at refused
  · refine ⟨t, rfl, fun proper => ?_⟩
    simp only [quiet, proper, ↓reduceIte] at refused
    exact absurd refused (by decide)

theorem isStrict_quiet : quiet.IsStrict := by
  intro place t improper
  simp only [quiet, improper, ↓reduceIte]

end Kernel

end Parking

/-! ## A pool and its parking place -/

namespace Pool

open Parking (Futex Kernel SleepEnd)
open Parking.Futex (Solo warnings)

/-- A pool, the place where its submitters park, and how their sleeps ended, latest first. -/
structure Lot where
  pool : Pool
  place : Solo := {}
  ends : List SleepEnd := []

/-- Whether an action is a submitter's, who parks by it. -/
def parks (p : Pool) : Action → Bool
  | .call k =>
    match (p.calls[k]?).map Call.activity with
    | some (.submitting _ .parking) => true
    | _ => false
  | _ => false

namespace Lot

/-- An action of the pool, in the state to which all the others have brought the parking place by
then; a submitter that parks does so for the time that was configured. -/
def act (kernel : Kernel) (l : Lot) (turn : Futex × Action) : Lot :=
  if l.pool.parks turn.2 then
    let place := { l.place with shared := turn.1 }
    let timeout := l.pool.config.parkTimeout
    let sleep := kernel place (some timeout.toTimespec)
    { pool := l.pool.step turn.2
      place := (place.park (some timeout) (some sleep)).2
      ends := if turn.1.word = 0 then sleep.ending :: l.ends else l.ends }
  else { l with pool := l.pool.step turn.2 }

/-- Some actions, first to last. -/
def run (kernel : Kernel) (l : Lot) (turns : List (Futex × Action)) : Lot :=
  turns.foldl (act kernel) l

theorem pool_act (kernel : Kernel) (l : Lot) (turn : Futex × Action) :
    (l.act kernel turn).pool = l.pool.step turn.2 := by
  unfold act
  split <;> rfl

/-- All sleeps were asked for with the time that was configured, and none was refused. -/
structure Timely (config : Config) (l : Lot) : Prop where
  configured : l.pool.config = config
  asked : ∀ word span, .wait word span ∈ l.place.calls →
    span = some config.parkTimeout.toTimespec
  accepted : .failed Errno.einval ∉ l.ends

end Lot

/-! ## The configuration stays -/

section Config

variable {p q : Pool} {log : Array (Thread × Log.Line)}

theorem NudgeMove.config_eq {n n' : Nudge} (m : NudgeMove p n n' q) : q.config = p.config := by
  cases m <;> rfl

theorem ReapingMove.config_eq {r r' : Reaping} (m : ReapingMove p log r r' q) :
    q.config = p.config := by
  cases m with
  | nudge m => exact m.config_eq
  | _ => rfl

theorem Move.config_eq {a : Action} (m : Move p log a q) : q.config = p.config := by
  cases m with
  | worker hw m => cases m <;> rfl
  | submission hc hs m =>
    cases m with
    | nudge m => exact m.config_eq
    | _ => rfl
  | reaping hc hs m => exact m.config_eq
  | nudging hc hs m => exact m.config_eq
  | creation m =>
    cases m with
    | rollBack hcreation m | drop hcreation m => exact m.config_eq
    | _ => rfl
  | @begin thread request hr => cases request <;> rfl
  | stay | release | rouse | rouseReapers => rfl

theorem Reachable.config_eq {config : Config}
    {spawner : Nat → Except StartFailure (Option Payload.Inert)} (h : Reachable config spawner p) :
    p.config = config := by
  refine h.keep (motive := fun p => p.config = config) ?_ fun _ _ m same => m.config_eq.trans same
  rcases create_cases config spawner with ⟨e, made⟩ | ⟨-, made⟩ <;> rw [made]

end Config

namespace Lot

variable {config : Config} {kernel : Kernel} {l : Lot}

/-- A sleep for a time that the operating system accepts is not refused. -/
theorem Timely.act (h : l.Timely config) (sound : l.pool.Sound) (lawful : kernel.IsLawful)
    (proper : config.parkTimeout.toTimespec.IsProper) (turn : Futex × Action) :
    (l.act kernel turn).Timely config := by
  have stays : (l.pool.step turn.2).config = config :=
    (sound.move_step turn.2).2.config_eq.trans h.configured
  unfold Lot.act
  split
  · rw [h.configured]
    refine ⟨stays, fun word span asked => ?_, ?_⟩
    · have waits := (Solo.parks { l.place with shared := turn.1 } (some config.parkTimeout)
        (kernel { l.place with shared := turn.1 } (some config.parkTimeout.toTimespec))).asks
      have listed := List.mem_filter.2
        ⟨asked, (rfl : Parking.Futex.Call.isWait (.wait word span) = true)⟩
      rw [waits, List.mem_append] at listed
      rcases listed with new | old
      · split at new
        · simp_all
        · exact absurd new List.not_mem_nil
      · exact h.asked word span (List.mem_filter.1 old).1
    · dsimp only
      split
      · rw [List.mem_cons, not_or]
        refine ⟨fun refused => ?_, h.accepted⟩
        obtain ⟨t, same, improper⟩ := lawful _ _ refused.symm
        cases same
        exact improper proper
      · exact h.accepted
  · exact ⟨stays, h.asked, h.accepted⟩

theorem Timely.run (h : l.Timely config) (sound : l.pool.Sound) (lawful : kernel.IsLawful)
    (proper : config.parkTimeout.toTimespec.IsProper) (turns : List (Futex × Action)) :
    (l.run kernel turns).Timely config := by
  induction turns generalizing l with
  | nil => exact h
  | cons turn turns ih =>
    refine ih (h.act sound lawful proper turn) ?_
    rw [pool_act]
    exact sound.step turn.2

end Lot

/-! ## Going round -/

/-- A submitter of a full pool, about to park. -/
structure Stuck (p : Pool) (k : Nat) : Prop where
  parks : ∃ job, p.Submits k job .parking
  full : p.idle = []
  running : p.control.isStopping = false

section Stuck

variable {p : Pool} {k : Nat}

theorem putCall_putCall (p : Pool) (k : Nat) (c c' : Call) :
    (p.putCall k c).putCall k c' = p.putCall k c' := by
  simp [putCall]

theorem putCall_self {c : Call} (hc : p.calls[k]? = some c) : p.putCall k c = p := by
  have same : p.calls.setIfInBounds k c = p.calls := by
    obtain ⟨inside, rfl⟩ := Array.getElem?_eq_some_iff.1 hc
    rw [Array.setIfInBounds, dif_pos inside, Array.set_getElem_self]
  rw [putCall, same]

/-- It looks for a stop and at the idle queue, finds neither, and parks again: meanwhile it stands
in no other place, and changes nothing. -/
theorem Stuck.steps (h : p.Stuck k) :
    ∃ c job, p.calls[k]? = some c ∧ c.activity = .submitting job .parking ∧
      p.step (.call k) = p.putCall k { c with activity := .submitting job (.arriving true) } ∧
      (p.putCall k { c with activity := .submitting job (.arriving true) }).step (.call k) =
        p.putCall k { c with activity := .submitting job (.popping true) } ∧
      (p.putCall k { c with activity := .submitting job (.popping true) }).step (.call k) = p := by
  obtain ⟨⟨job, c, hc, hs⟩, full, running⟩ := h
  have here : p.putCall k { c with activity := .submitting job .parking } = p := by
    rw [← hs]
    exact putCall_self hc
  -- none of the steps changes more than the place of the call
  have goes {s : Submission} (s' : Submission) {q : Pool}
      (hq : q = p.putCall k { c with activity := .submitting job s })
      (e : q.stepSubmission c.thread job s = (s', q)) :
      q.step (.call k) = p.putCall k { c with activity := .submitting job s' } := by
    subst hq
    rw [step_submitting (getElem?_putCall_self hc) rfl]
    dsimp only
    rw [e, putCall_putCall]
  refine ⟨c, job, hc, hs, goes _ here.symm rfl, goes _ rfl ?_, (goes .parking rfl ?_).trans here⟩
  · simp only [stepSubmission, putCall, running]
    rfl
  · simp only [stepSubmission, putCall, full]
    rfl

end Stuck

namespace Lot

variable {kernel : Kernel} {l : Lot} {k : Nat}

/-- The three steps that take a stuck submitter back to where it was, while the others leave the
parking place as given. -/
def round (shared : Futex) (k : Nat) : List (Futex × Action) :=
  List.replicate 3 (shared, .call k)

/-- What a refused sleep says. -/
def refusal : Log.Line := .warn ("futex wait failed: " ++ Errno.describe Errno.einval)

theorem act_of_not_parks {turn : Futex × Action} (h : l.pool.parks turn.2 = false) :
    l.act kernel turn = { l with pool := l.pool.step turn.2 } := by
  simp [act, h]

/-- A stuck submitter whose time is refused is back where it was without having slept. -/
theorem round_of_stuck (h : l.pool.Stuck k) (strict : kernel.IsStrict)
    (improper : ¬ l.pool.config.parkTimeout.toTimespec.IsProper) {shared : Futex}
    (clear : shared.word = 0) :
    (l.run kernel (round shared k)).pool = l.pool ∧
      (l.run kernel (round shared k)).ends = .failed Errno.einval :: l.ends ∧
      (l.run kernel (round shared k)).place.log = refusal :: l.place.log := by
  obtain ⟨c, job, hc, hs, first, second, third⟩ := h.steps
  -- the other two steps are none of parking
  have passes (s : Submission) (other : s ≠ .parking) (place : Solo) (ends : List SleepEnd) :
      (Lot.mk (l.pool.putCall k { c with activity := .submitting job s }) place ends).act kernel
          (shared, .call k) =
        ⟨(l.pool.putCall k { c with activity := .submitting job s }).step (.call k), place,
          ends⟩ := by
    refine act_of_not_parks ?_
    simp only [Pool.parks, getElem?_putCall_self hc, Option.map_some]
    split
    · next same => cases same; exact absurd rfl other
    · rfl
  have parks : l.pool.parks (.call k) = true := by simp [Pool.parks, hc, hs]
  have parked : l.act kernel (shared, .call k) =
      { pool := l.pool.putCall k { c with activity := .submitting job (.arriving true) }
        place := (Solo.park (some l.pool.config.parkTimeout)
          (some { during := [], ending := .failed Errno.einval })
          { l.place with shared }).2
        ends := .failed Errno.einval :: l.ends } := by
    simp only [act, parks, first, strict _ _ improper, clear, ↓reduceIte]
  have back : l.run kernel (round shared k) =
      { l.act kernel (shared, .call k) with pool := l.pool } := by
    show ((l.act kernel (shared, .call k)).act kernel (shared, .call k)).act kernel _ = _
    rw [parked, passes (.arriving true) (by simp), second, passes (.popping true) (by simp), third]
  rw [back, parked]
  refine ⟨rfl, rfl, ?_⟩
  dsimp only
  rw [Solo.park_of_clear { l.place with shared } _ _ clear]
  rfl

/-- So it goes round and round. -/
theorem spins (h : l.pool.Stuck k) (strict : kernel.IsStrict)
    (improper : ¬ l.pool.config.parkTimeout.toTimespec.IsProper) {shared : Futex}
    (clear : shared.word = 0) (n : Nat) :
    (l.run kernel (List.replicate n (round shared k)).flatten).pool = l.pool ∧
      (l.run kernel (List.replicate n (round shared k)).flatten).ends =
        List.replicate n (.failed Errno.einval) ++ l.ends ∧
      (l.run kernel (List.replicate n (round shared k)).flatten).place.log =
        List.replicate n refusal ++ l.place.log := by
  induction n with
  | zero => exact ⟨rfl, rfl, rfl⟩
  | succ n ih =>
    obtain ⟨pool, ends, log⟩ := ih
    have split : (List.replicate (n + 1) (round shared k)).flatten =
        (List.replicate n (round shared k)).flatten ++ round shared k := by
      rw [List.replicate_succ', List.flatten_concat]
    rw [split, run, List.foldl_append]
    obtain ⟨pool', ends', log'⟩ := round_of_stuck
      (l := l.run kernel (List.replicate n (round shared k)).flatten) (by rwa [pool]) strict
      (by rwa [pool]) clear
    refine ⟨pool'.trans pool, ends'.trans ?_, log'.trans ?_⟩
    · rw [ends, List.replicate_succ, List.cons_append]
    · rw [log, List.replicate_succ, List.cons_append]

end Lot

/-! ## The time that was given -/

/-- Sleeps of a pool that was configured with a given time. -/
structure Patient (config : Config) (l : Lot) : Prop where
  /-- Each is asked for with a proper span, which is the time that was configured, -/
  asked : ∀ word span, .wait word span ∈ l.place.calls →
    ∃ t, span = some t ∧ t.IsProper ∧ t.toNanos = (config.parkTimeout.toNanos : Int) ∧
      0 < t.toNanos
  /-- and none is refused. -/
  accepted : .failed Errno.einval ∉ l.ends

theorem isZero_of_validate {config : Config} (valid : config.validate = .ok ()) :
    config.parkTimeout.isZero = false := by
  unfold Config.validate at valid
  split at valid
  · cases valid
  split at valid
  · cases valid
  split at valid
  · cases valid
  · next nonzero => simpa using nonzero

/-- A span is handed over as it is just if its seconds fit into a signed word; if those of the
configured time do, the submitters of a pool sleep for that time whenever they park. -/
theorem patient_run (d : Duration) {config : Config}
    {spawner : Nat → Except StartFailure (Option Payload.Inert)} {p : Pool} {kernel : Kernel}
    (valid : config.validate = .ok ()) (fits : config.parkTimeout.secs.toNat < 2 ^ 63)
    (h : Reachable config spawner p) (lawful : kernel.IsLawful) (turns : List (Futex × Action)) :
    (d.toTimespec.IsProper ∧ d.toTimespec.toNanos = (d.toNanos : Int) ↔ d.secs.toNat < 2 ^ 63) ∧
      Patient config (Lot.run kernel { pool := p } turns) := by
  have proper := config.parkTimeout.isProper_toTimespec.2 fits
  have same := config.parkTimeout.toNanos_toTimespec fits
  have timely := Lot.Timely.run (l := { pool := p }) ⟨h.config_eq, by simp, by simp⟩ h.sound
    lawful proper turns
  refine ⟨?_, fun word span asked => ⟨_, timely.asked word span asked, proper, same, ?_⟩,
    timely.accepted⟩
  · rw [d.isProper_toTimespec, and_iff_left_iff_imp]
    exact d.toNanos_toTimespec
  · rw [same, Int.natCast_pos, Nat.pos_iff_ne_zero, ne_eq, ← Duration.isZero_iff,
      isZero_of_validate valid]
    decide

/-- A pool with a single worker, whose submitters are to sleep for so long. -/
def lonely (parkTimeout : Duration) : Config where
  workers := 1
  parkTimeout
  stackSize := 0
  debugLogging := false

/-- The worker is made, and the first of two submitters takes it; the other is about to park. -/
def crowding : List Action :=
  List.replicate 3 .creation ++ [.worker 0] ++ List.replicate 2 .creation ++ submitting 0 2 ++
    submitting 1 3

/-- A submitter that waits for the worker sleeps for ten milliseconds, and then for ten more. -/
theorem patient_of_crowding :
    let l := Lot.run .quiet { pool := (create (lonely (.ofMillis 10)) steady).run crowding }
      (Lot.round {} 1 ++ Lot.round {} 1)
    l.ends = [.failed Errno.etimedout, .failed Errno.etimedout] ∧
      l.place.calls = List.replicate 2 (.wait 0 (some ⟨0, 10000000⟩)) ∧
      Patient (lonely (.ofMillis 10)) l :=
  ⟨by decide, by decide, (patient_run (.ofMillis 10) (by decide) (Duration.fits_ofMillis 10)
    (Reachable.start.run crowding) Kernel.isLawful_quiet _).2⟩

/-- The longest time of all is a configuration that nobody complains about.  It is handed over as a
negative one: the submitter that waits for the worker goes round as often as it gets its turn, and
never sleeps. -/
theorem exists_sleepless :
    (lonely .max).validate = .ok () ∧ Kernel.quiet.IsLawful ∧
      Duration.max.toTimespec.sec.toInt = -1 ∧
      ((create (lonely .max) steady).run crowding).Stuck 1 ∧
      ∀ n, (Lot.run .quiet { pool := (create (lonely .max) steady).run crowding }
        (List.replicate n (Lot.round {} 1)).flatten).ends =
          List.replicate n (.failed Errno.einval) := by
  have stuck : ((create (lonely .max) steady).run crowding).Stuck 1 :=
    ⟨⟨1, ⟨.main, .submitting 1 .parking⟩, by decide, rfl⟩, by decide, by decide⟩
  refine ⟨by decide, Kernel.isLawful_quiet, by decide, stuck, fun n => ?_⟩
  have spins := (Lot.spins (l := { pool := (create (lonely .max) steady).run crowding }) stuck
    Kernel.isStrict_quiet (by decide) (rfl : ({} : Futex).word = 0) n).2.1
  rwa [List.append_nil] at spins

end Pool

end Interlock
