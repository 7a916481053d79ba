import Interlock.Answers
import Interlock.ReadWrite.Strategy

/-!
# The raw reader/writer lock

Below the lock with its counters lies a raw lock that can be tried, waited for in bounded slices,
released and lowered from writing to reading.  Who answers is a `Raw` over a world of its own: an
ideal lock that threads share, or prepared answers that need not fit together.
-/

namespace Interlock.ReadWrite

/-- A call of the raw lock. -/
inductive RawCall where
  /-- An attempt in a mode, at once or for the length of one slice, and whether it was granted. -/
  | attempt (mode : Mode) (timed granted : Bool)
  | unlockShared
  | unlockExclusive
  | downgrade
  deriving DecidableEq, Repr, Inhabited

/-- The call in a record. -/
def RawCall.render : RawCall → String
  | .attempt .read false granted => "try_shared=" ++ toString granted
  | .attempt .write false granted => "try_exclusive=" ++ toString granted
  | .attempt .read true granted => "try_shared_for=" ++ toString granted
  | .attempt .write true granted => "try_exclusive_for=" ++ toString granted
  | .unlockShared => "unlock_shared"
  | .unlockExclusive => "unlock_exclusive"
  | .downgrade => "downgrade"

/-- Who answers the calls, in a world `σ`. -/
structure Raw (σ : Type) where
  /-- An attempt in a mode, at once or for one slice. -/
  attempt : Mode → Bool → σ → Bool × σ
  unlockShared : σ → σ
  unlockExclusive : σ → σ
  downgrade : σ → σ
  /-- Whether slices in this mode fail until another thread acts. -/
  blocked : Mode → σ → Bool
  /-- How many slices can fail before one is granted, unless `blocked`. -/
  patience : σ → Nat

/-! ## The ideal lock -/

/-- A lock held by one writer or by any number of readers. -/
structure Ideal where
  writer : Bool := false
  shares : Nat := 0
  deriving DecidableEq, Repr, Inhabited

namespace Ideal

/-- Whether a mode can be granted now. -/
def grants (l : Ideal) : Mode → Bool
  | .read => !l.writer
  | .write => !l.writer && l.shares == 0

/-- The lock after a mode was granted. -/
def take (l : Ideal) : Mode → Ideal
  | .read => { l with shares := l.shares + 1 }
  | .write => { l with writer := true }

/-- An attempt is granted exactly when the mode can be granted now. -/
def attempt (mode : Mode) (l : Ideal) : Bool × Ideal :=
  if l.grants mode then (true, l.take mode) else (false, l)

/-- The ideal lock as threads share it. -/
def raw : Raw Ideal where
  attempt := fun mode _ l => l.attempt mode
  unlockShared := fun l => { l with shares := l.shares - 1 }
  unlockExclusive := fun l => { l with writer := false }
  downgrade := fun l => { l with writer := false, shares := l.shares + 1 }
  blocked := fun mode l => !l.grants mode
  patience := fun _ => 0

/-- The ideal lock while a writer waits for the readers to leave: it grants no more shares, so
that new readers cannot keep the writer waiting for ever. -/
def reserved : Raw Ideal :=
  { raw with
    attempt := fun mode _ l => if mode = .read then (false, l) else l.attempt mode
    blocked := fun mode l => mode = .read || !l.grants mode }

end Ideal

/-! ## Prepared answers -/

/-- Answers that are still to be given to attempts; when they are used up, attempts succeed. -/
structure Script where
  shared : Answers Bool := {}
  exclusive : Answers Bool := {}
  sharedFor : Answers Bool := {}
  exclusiveFor : Answers Bool := {}
  deriving DecidableEq, Repr, Inhabited

namespace Script

/-- The answers prepared for attempts in a mode, at once or timed. -/
def get (s : Script) : Mode → Bool → Answers Bool
  | .read, false => s.shared
  | .write, false => s.exclusive
  | .read, true => s.sharedFor
  | .write, true => s.exclusiveFor

/-- Replaces the answers prepared for attempts in a mode, at once or timed. -/
def set (s : Script) (answers : Answers Bool) : Mode → Bool → Script
  | .read, false => { s with shared := answers }
  | .write, false => { s with exclusive := answers }
  | .read, true => { s with sharedFor := answers }
  | .write, true => { s with exclusiveFor := answers }

@[simp] theorem get_set_self (s : Script) (answers : Answers Bool) (mode : Mode) (timed : Bool) :
    (s.set answers mode timed).get mode timed = answers := by
  cases mode <;> cases timed <;> rfl

/-- The next answer to an attempt. -/
def next (mode : Mode) (timed : Bool) (s : Script) : Bool × Script :=
  match (s.get mode timed).next? with
  | none => (true, s)
  | some (granted, rest) => (granted, s.set rest mode timed)

/-- Prepares more answers behind those that are there. -/
def append (s t : Script) : Script where
  shared := s.shared.append t.shared
  exclusive := s.exclusive.append t.exclusive
  sharedFor := s.sharedFor.append t.sharedFor
  exclusiveFor := s.exclusiveFor.append t.exclusiveFor

/-- The lock that answers from a script. -/
def raw : Raw Script where
  attempt := next
  unlockShared := id
  unlockExclusive := id
  downgrade := id
  blocked := fun _ _ => false
  patience := fun s => s.sharedFor.length + s.exclusiveFor.length

end Script

end Interlock.ReadWrite
