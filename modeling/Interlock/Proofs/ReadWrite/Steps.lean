import Interlock.ReadWrite.Session
import Mathlib.Tactic.Common

/-!
# What a step of the reader/writer lock does

The lock keeps books beside the raw lock: the token of the writer and the number of readers.  They
are written a step after the raw lock was taken and a step before it is given back, so in the
middle of an operation they differ from what the thread holds, in a way that its place in the
operation tells (`Activity.Booked`, `Activity.reads`).

`Stride` says what a step can do to the books and which call of the raw lock it makes; counters and
the log are left out, since nothing depends on them.  Every step is a stride (`step_stride`), and a
stride keeps the books at their distance from what is held (`Stride.booked`, `Stride.reads`).
-/

namespace Interlock.ReadWrite

/-! ## What a thread holds -/

/-- What a thread holds of the raw lock. -/
structure Held where
  writes : Bool := false
  shares : Nat := 0
  deriving DecidableEq, Repr, Inhabited

namespace Held

/-- What is held after a call of the raw lock. -/
def after (h : Held) : RawCall → Held
  | .attempt .read _ true => { h with shares := h.shares + 1 }
  | .attempt .write _ true => { h with writes := true }
  | .attempt _ _ false => h
  | .unlockShared => { h with shares := h.shares - 1 }
  | .unlockExclusive => { h with writes := false }
  | .downgrade => ⟨false, h.shares + 1⟩

/-- What is held after a step that makes one call or none. -/
def next (h : Held) : Option RawCall → Held
  | none => h
  | some c => h.after c

/-- A refused attempt changes nothing. -/
theorem next_refused {h : Held} {c : Option RawCall}
    (refused : c = none ∨ ∃ mode timed, c = some (.attempt mode timed false)) : h.next c = h := by
  rcases refused with rfl | ⟨mode, timed, rfl⟩
  · rfl
  · cases mode <;> rfl

/-- Whether a call may be made by a thread that holds this.  Attempts are always allowed; only
what is held can be given back or lowered. -/
def Permits (h : Held) : RawCall → Prop
  | .attempt .. => True
  | .unlockShared => 0 < h.shares
  | .unlockExclusive => h.writes = true
  | .downgrade => h.writes = true

end Held

/-! ## Steps -/

section Tally

variable (l : ReadWrite) (f : Tally → Tally) (mode : Mode)

@[simp] theorem updateTally_owner : (l.updateTally f mode).owner = l.owner := by
  cases mode <;> rfl

@[simp] theorem updateTally_readers : (l.updateTally f mode).readers = l.readers := by
  cases mode <;> rfl

@[simp] theorem updateTally_spinLimit : (l.updateTally f mode).spinLimit = l.spinLimit := by
  cases mode <;> rfl

end Tally

namespace Activity

/-- The call that the next step makes of a raw lock in this world. -/
def call? {σ : Type} (raw : Raw σ) (world : σ) : Activity → Option RawCall
  | .trying stage _ => some (.attempt stage.mode false (raw.attempt stage.mode false world).1)
  | .retrying mode _ => some (.attempt mode false (raw.attempt mode false world).1)
  | .slicing mode => some (.attempt mode true (raw.attempt mode true world).1)
  | .releasingExclusive => some .unlockExclusive
  | .releasingShared => some .unlockShared
  | .lowering => some .downgrade
  | _ => none

/-- Whether the thread still seeks the raw lock. -/
def isSeeking : Activity → Bool
  | .trying .. | .counting .. | .noting .. | .spinning .. | .retrying .. | .slicing _
  | .tallying _ | .waitingOn _ => true
  | _ => false

/-- Whether the thread has lowered the raw lock and has not begun another operation. -/
def isLowered : Activity → Bool
  | .countingDowngrade | .notingDowngrade | .finished .lowered => true
  | _ => false

theorem isSeeking_spinOn (mode : Mode) (left : Nat) : (spinOn mode left).isSeeking = true := by
  cases left <;> rfl

/-- An acquisition that goes on seeks, or gives up without a grant. -/
theorem isSeeking_proceed (rest : List Stage) :
    (proceed rest).isSeeking = true ∨ proceed rest = .finished (.acquired .unlocked) := by
  cases rest with
  | nil => exact .inr rfl
  | cons stage rest => exact .inl rfl

end Activity

/-- The world after a call. -/
def Raw.after {σ : Type} (raw : Raw σ) (world : σ) : Option RawCall → σ
  | none => world
  | some (.attempt mode timed _) => (raw.attempt mode timed world).2
  | some .unlockShared => raw.unlockShared world
  | some .unlockExclusive => raw.unlockExclusive world
  | some .downgrade => raw.downgrade world

/-- A step of the thread with token `me`, from the books with writer `o` and `r` readers to those
with `o'` and `r'`, and the call of the raw lock that it makes. -/
inductive Stride (me : Nat) : (o r : Nat) → Activity → Option RawCall → (o' r' : Nat) →
    Activity → Prop
  /-- The raw lock is sought on, perhaps by an attempt that is refused. -/
  | seek {o r : Nat} {a a' : Activity} {c : Option RawCall} (ha : a.isSeeking = true)
      (ha' : a'.isSeeking = true ∨ a' = .finished (.acquired .unlocked))
      (hc : c = none ∨ ∃ mode timed, c = some (.attempt mode timed false)) :
      Stride me o r a c o r a'
  | grant {o r : Nat} {a : Activity} (mode : Mode) (timed : Bool) (ha : a.isSeeking = true) :
      Stride me o r a (some (.attempt mode timed true)) o r (.recording mode)
  | recordRead {o r : Nat} :
      Stride me o r (.recording .read) none o (r + 1) (.finished (.acquired .read))
  | recordWrite {o r : Nat} :
      Stride me o r (.recording .write) none me r (.finished (.acquired .write))
  | disown {r : Nat} : Stride me me r .releasing none 0 r .releasingExclusive
  | pass {o r : Nat} (ho : o ≠ me) : Stride me o r .releasing none o r .leaving
  | unlockExclusive {o r : Nat} :
      Stride me o r .releasingExclusive (some .unlockExclusive) o r (.finished .released)
  | leave {o r : Nat} : Stride me o (r + 1) .leaving none o r .releasingShared
  | unheld {o : Nat} : Stride me o 0 .leaving none o 0 (.finished (.failed .unlockUnheld))
  | unlockShared {o r : Nat} :
      Stride me o r .releasingShared (some .unlockShared) o r (.finished .released)
  | claim {r : Nat} : Stride me me r .checking none me r .joining
  | unowned {o r : Nat} (ho : o ≠ me) :
      Stride me o r .checking none o r (.finished (.failed .downgradeUnheld))
  | join {o r : Nat} : Stride me o r .joining none o (r + 1) .disowning
  | vacate {o r : Nat} : Stride me o r .disowning none 0 r .lowering
  | lower {o r : Nat} : Stride me o r .lowering (some .downgrade) o r .countingDowngrade
  | wind {o r : Nat} {a a' : Activity} (ha : a.isLowered = true) (ha' : a'.isLowered = true) :
      Stride me o r a none o r a'
  | stay {o r : Nat} (result : Result) :
      Stride me o r (.finished result) none o r (.finished result)

section Step

variable {σ : Type} (raw : Raw σ) (me : Nat) (s : State σ) (a : Activity)

/-- A step makes at most one raw call. -/
theorem step_calls : (step raw me s a).1.calls = (a.call? raw s.world).toList ++ s.calls := by
  cases a with
  | trying stage rest =>
    rcases h : raw.attempt stage.mode false s.world with ⟨_ | _, w⟩ <;>
      simp [step, State.attempt, Activity.call?, h]
  | retrying mode left =>
    rcases h : raw.attempt mode false s.world with ⟨_ | _, w⟩ <;>
      simp [step, State.attempt, Activity.call?, h]
  | slicing mode =>
    rcases h : raw.attempt mode true s.world with ⟨_ | _, w⟩ <;>
      simp [step, State.attempt, Activity.call?, h]
  | noting stage rest => simp only [step]; split <;> rfl
  | releasing | checking => simp only [step]; split <;> rfl
  | leaving => simp only [step]; split <;> rfl
  | _ => rfl

/-- The raw lock changes by that call only. -/
theorem step_world : (step raw me s a).1.world = raw.after s.world (a.call? raw s.world) := by
  cases a with
  | trying stage rest =>
    rcases h : raw.attempt stage.mode false s.world with ⟨_ | _, w⟩ <;>
      simp [step, State.attempt, Activity.call?, Raw.after, h]
  | retrying mode left =>
    rcases h : raw.attempt mode false s.world with ⟨_ | _, w⟩ <;>
      simp [step, State.attempt, Activity.call?, Raw.after, h]
  | slicing mode =>
    rcases h : raw.attempt mode true s.world with ⟨_ | _, w⟩ <;>
      simp [step, State.attempt, Activity.call?, Raw.after, h]
  | noting stage rest => simp only [step]; split <;> rfl
  | releasing | checking => simp only [step]; split <;> rfl
  | leaving => simp only [step]; split <;> rfl
  | _ => rfl

/-- Every step is one stride of the owner and the readers. -/
theorem step_stride :
    Stride me s.lock.owner s.lock.readers a (a.call? raw s.world) (step raw me s a).1.lock.owner
      (step raw me s a).1.lock.readers (step raw me s a).2 := by
  cases a with
  | trying stage rest =>
    rcases h : raw.attempt stage.mode false s.world with ⟨_ | _, w⟩
    · simp only [step, State.attempt, Activity.call?, h]
      exact .seek rfl (.inl rfl) (.inr ⟨_, _, rfl⟩)
    · simp only [step, State.attempt, Activity.call?, h]
      exact .grant _ _ rfl
  | retrying mode left =>
    rcases h : raw.attempt mode false s.world with ⟨_ | _, w⟩
    · simp only [step, State.attempt, Activity.call?, h]
      exact .seek rfl (.inl (Activity.isSeeking_spinOn mode left)) (.inr ⟨_, _, rfl⟩)
    · simp only [step, State.attempt, Activity.call?, h]
      exact .grant _ _ rfl
  | slicing mode =>
    rcases h : raw.attempt mode true s.world with ⟨_ | _, w⟩
    · simp only [step, State.attempt, Activity.call?, h]
      exact .seek rfl (.inl rfl) (.inr ⟨_, _, rfl⟩)
    · simp only [step, State.attempt, Activity.call?, h]
      exact .grant _ _ rfl
  | counting stage rest =>
    simp only [step, State.modify, countBusy, updateTally_owner, updateTally_readers]
    exact .seek rfl (.inl rfl) (.inl rfl)
  | noting stage rest =>
    by_cases waits : stage.waits = true
    · simp only [step, waits, ↓reduceIte, State.note]
      exact .seek rfl (.inl (Activity.isSeeking_spinOn _ _)) (.inl rfl)
    · simp only [step, waits, State.note]
      exact .seek rfl (Activity.isSeeking_proceed rest) (.inl rfl)
  | spinning mode left | tallying mode =>
    simp only [step, State.modify, countSpin, updateTally_owner, updateTally_readers]
    exact .seek rfl (.inl rfl) (.inl rfl)
  | waitingOn mode => exact .seek rfl (.inl rfl) (.inl rfl)
  | recording mode =>
    cases mode with
    | read => exact .recordRead
    | write => exact .recordWrite
  | releasing =>
    by_cases mine : s.lock.owner = me
    · simp only [step, mine, ↓reduceIte]
      exact .disown
    · simp only [step, mine, ↓reduceIte]
      exact .pass mine
  | releasingExclusive => exact .unlockExclusive
  | leaving =>
    rcases hr : s.lock.readers with _ | readers
    · simp only [step, State.report, hr]
      exact .unheld
    · simp only [step, State.modify, hr]
      exact .leave
  | releasingShared => exact .unlockShared
  | checking =>
    by_cases mine : s.lock.owner = me
    · simp only [step, mine, ↓reduceIte]
      exact .claim
    · simp only [step, mine, ↓reduceIte]
      exact .unowned mine
  | joining => exact .join
  | disowning => exact .vacate
  | lowering => exact .lower
  | countingDowngrade | notingDowngrade => exact .wind rfl rfl
  | finished result => exact .stay result

end Step

/-! ## The books in the middle of an operation -/

namespace Activity

/-- The readers that a thread accounts for in the books: its shares, but for one that the books do
not show yet or do not show any more, and one that they show before it is there. -/
def reads (a : Activity) (h : Held) : Nat :=
  match a with
  | .recording .read => h.shares - 1
  | .releasingShared => h.shares - 1
  | .disowning => h.shares + 1
  | .lowering => h.shares + 1
  | _ => h.shares

/-- What a thread holds at its place in an operation, when `mine` tells whether the books name it
as the writer. -/
def Booked (a : Activity) (mine : Prop) (h : Held) : Prop :=
  match a with
  | .recording .read => 0 < h.shares ∧ (mine ↔ h.writes = true)
  | .recording .write => h.writes = true
  | .releasingExclusive => ¬ mine ∧ h.writes = true
  | .leaving => ¬ mine ∧ h.writes = false
  | .releasingShared => ¬ mine ∧ h.writes = false ∧ 0 < h.shares
  | .joining => mine ∧ h.writes = true
  | .disowning => mine ∧ h.writes = true
  | .lowering => ¬ mine ∧ h.writes = true
  | _ => mine ↔ h.writes = true

/-- Away from the places where they differ, the books show what is held. -/
def isExact : Activity → Bool
  | .recording _ | .releasingExclusive | .leaving | .releasingShared | .joining | .disowning
  | .lowering => false
  | _ => true

/-- Where the lock's part is exact, a thread counts among the readers as often as it holds a
share. -/
theorem reads_of_isExact {a : Activity} (ha : a.isExact = true) (h : Held) :
    a.reads h = h.shares := by
  cases a <;> first | rfl | cases ha

theorem booked_iff_of_isExact {a : Activity} (ha : a.isExact = true) (mine : Prop) (h : Held) :
    a.Booked mine h ↔ (mine ↔ h.writes = true) := by
  cases a <;> first | rfl | cases ha

/-- A thread accounts for a reader more than it has shares only as a writer. -/
theorem Booked.reads_le {a : Activity} {mine : Prop} {h : Held} (b : a.Booked mine h) :
    a.reads h ≤ h.shares + h.writes.toNat := by
  cases a with
  | recording mode =>
    cases mode with
    | read => exact Nat.le_trans (Nat.sub_le _ _) (Nat.le_add_right _ _)
    | write => exact Nat.le_add_right _ _
  | releasingShared => exact Nat.le_trans (Nat.sub_le _ _) (Nat.le_add_right _ _)
  | disowning | lowering =>
    have writes : h.writes = true := b.2
    simp [reads, writes]
  | _ => exact Nat.le_add_right _ _

theorem isExact_of_isSeeking {a : Activity} (ha : a.isSeeking = true) : a.isExact = true := by
  cases a <;> first | rfl | cases ha

theorem isExact_of_isLowered {a : Activity} (ha : a.isLowered = true) : a.isExact = true := by
  cases a <;> first | rfl | cases ha

end Activity

namespace Stride

variable {me o r o' r' : Nat} {a a' : Activity} {c : Option RawCall} {h : Held}

theorem isExact_of_sought (h : a.isSeeking = true ∨ a = .finished (.acquired .unlocked)) :
    a.isExact = true := by
  rcases h with h | rfl
  · exact Activity.isExact_of_isSeeking h
  · rfl

/-- A thread gives back and lowers only what it holds. -/
theorem permits (st : Stride me o r a c o' r' a') (b : a.Booked (o = me) h) {call : RawCall}
    (hc : c = some call) : h.Permits call := by
  cases st with
  | seek ha ha' refused =>
    rcases refused with none | ⟨mode, timed, refused⟩
    · rw [none] at hc
      cases hc
    · rw [refused] at hc
      cases hc
      trivial
  | grant mode timed ha =>
    cases hc
    trivial
  | unlockExclusive =>
    cases hc
    exact b.2
  | unlockShared =>
    cases hc
    exact b.2.2
  | lower =>
    cases hc
    exact b.2
  | _ => cases hc

/-- The books keep their distance from what is held.  There must be a share behind the reader that
a leaving thread takes off. -/
theorem booked (st : Stride me o r a c o' r' a') (hme : me ≠ 0) (b : a.Booked (o = me) h)
    (backed : a = .leaving → 0 < r → 0 < h.shares) : a'.Booked (o' = me) (h.next c) := by
  cases st with
  | seek ha ha' refused =>
    rw [Activity.booked_iff_of_isExact (Activity.isExact_of_isSeeking ha)] at b
    rw [Activity.booked_iff_of_isExact (isExact_of_sought ha'), Held.next_refused refused]
    exact b
  | grant mode timed ha =>
    rw [Activity.booked_iff_of_isExact (Activity.isExact_of_isSeeking ha)] at b
    cases mode with
    | read => exact ⟨Nat.succ_pos _, b⟩
    | write => rfl
  | recordRead => exact b.2
  | recordWrite => exact ⟨fun _ => b, fun _ => rfl⟩
  | disown => exact ⟨hme.symm, b.1 rfl⟩
  | pass other => exact ⟨other, Bool.eq_false_iff.2 fun writes => other (b.2 writes)⟩
  | unlockExclusive => exact iff_of_false b.1 Bool.false_ne_true
  | leave => exact ⟨b.1, b.2, backed rfl (Nat.succ_pos _)⟩
  | unheld => exact iff_of_false b.1 (Bool.not_eq_true _ ▸ b.2)
  | unlockShared => exact iff_of_false b.1 (Bool.not_eq_true _ ▸ b.2.1)
  | claim => exact ⟨rfl, b.1 rfl⟩
  | unowned other => exact b
  | join => exact b
  | vacate => exact ⟨hme.symm, b.2⟩
  | lower => exact iff_of_false b.1 Bool.false_ne_true
  | wind ha ha' =>
    rw [Activity.booked_iff_of_isExact (Activity.isExact_of_isLowered ha)] at b
    rwa [Activity.booked_iff_of_isExact (Activity.isExact_of_isLowered ha')]
  | stay result => exact b

/-- What a thread adds to the readers in the books is what it comes to account for. -/
theorem reads (st : Stride me o r a c o' r' a') (b : a.Booked (o = me) h)
    (backed : a = .leaving → 0 < r → 0 < h.shares) :
    r' + a.reads h = r + a'.reads (h.next c) := by
  cases st with
  | seek ha ha' refused =>
    rw [Activity.reads_of_isExact (Activity.isExact_of_isSeeking ha),
      Activity.reads_of_isExact (isExact_of_sought ha'), Held.next_refused refused]
  | grant mode timed ha =>
    rw [Activity.reads_of_isExact (Activity.isExact_of_isSeeking ha)]
    cases mode <;> rfl
  | recordRead =>
    have shared : 0 < h.shares := b.1
    simp only [Activity.reads, Held.next]
    omega
  | leave =>
    have shared : 0 < h.shares := backed rfl (Nat.succ_pos _)
    simp only [Activity.reads, Held.next]
    omega
  | join =>
    simp only [Activity.reads, Held.next]
    omega
  | wind ha ha' =>
    rw [Activity.reads_of_isExact (Activity.isExact_of_isLowered ha),
      Activity.reads_of_isExact (Activity.isExact_of_isLowered ha')]
    rfl
  | _ => rfl

/-- A thread changes the writer in the books only to itself, or from itself to nobody. -/
theorem owner (st : Stride me o r a c o' r' a') (b : a.Booked (o = me) h) :
    o' = o ∨ (o' = me ∧ h.writes = true) ∨ o = me ∧ o' = 0 := by
  cases st with
  | recordWrite => exact .inr (.inl ⟨rfl, b⟩)
  | disown => exact .inr (.inr ⟨rfl, rfl⟩)
  | vacate => exact .inr (.inr ⟨b.1, rfl⟩)
  | _ => exact .inl rfl

end Stride

end Interlock.ReadWrite
