/-!
# Acquisition strategies

A reader/writer lock is acquired by a strategy.  Two descriptions of a strategy stand side by
side: what it may do (`mayBlock`, `mayWrite`, `mayFail`), and the stages in which it is carried
out (`stages`).
-/

namespace Interlock.ReadWrite

/-- How the lock can be held. -/
inductive Mode where
  | read
  | write
  deriving DecidableEq, Repr, Inhabited

/-- The mode in a message. -/
def Mode.name : Mode → String
  | .read => "read"
  | .write => "write"

/-- What an acquisition obtained. -/
inductive Level where
  | unlocked
  | read
  | write
  deriving DecidableEq, Repr, Inhabited

namespace Level

/-- Every level, from the weakest up. -/
def all : List Level := [.unlocked, .read, .write]

/-- The level in a message. -/
def name : Level → String
  | .unlocked => "unlocked"
  | .read => "read"
  | .write => "write"

/-- The strength of a level. -/
def rank : Level → Nat
  | .unlocked => 0
  | .read => 1
  | .write => 2

/-- Compares two levels by strength. -/
instance : Ord Level where
  compare a b := compare a.rank b.rank

/-- Whether anything was obtained. -/
def isLocked (l : Level) : Bool := l != .unlocked

end Level

/-- The level of a lock held in a mode. -/
def Mode.level : Mode → Level
  | .read => .read
  | .write => .write

/-- How to acquire the lock. -/
inductive Strategy where
  /-- Wait for a read lock. -/
  | forReading
  /-- Wait for the write lock. -/
  | forWriting
  /-- Take a read lock only if it is there at once. -/
  | tryForReading
  /-- Take the write lock only if it is there at once. -/
  | tryForWriting
  /-- Try the write lock, otherwise wait for a read lock. -/
  | tryForWritingThenForReading
  /-- Try the write lock, otherwise try a read lock. -/
  | tryForWritingThenTryForReading
  deriving DecidableEq, Repr, Inhabited

/-- One stage of an acquisition: a mode, and whether the stage waits until it is granted. -/
structure Stage where
  mode : Mode
  waits : Bool
  deriving DecidableEq, Repr, Inhabited

namespace Strategy

/-- Every strategy. -/
def all : List Strategy :=
  [.forReading, .forWriting, .tryForReading, .tryForWriting, .tryForWritingThenForReading,
   .tryForWritingThenTryForReading]

/-- The name of a strategy. -/
def name : Strategy → String
  | .forReading => "ForReading"
  | .forWriting => "ForWriting"
  | .tryForReading => "TryForReading"
  | .tryForWriting => "TryForWriting"
  | .tryForWritingThenForReading => "TryForWritingThenForReading"
  | .tryForWritingThenTryForReading => "TryForWritingThenTryForReading"

/-- The strategy of a name. -/
def ofName? (name : String) : Option Strategy := all.find? (·.name == name)

/-- Whether the caller may have to wait. -/
def mayBlock : Strategy → Bool
  | .forReading => true
  | .forWriting => true
  | .tryForWritingThenForReading => true
  | _ => false

/-- Whether the strategy can end in the write lock. -/
def mayWrite : Strategy → Bool
  | .forReading => false
  | .tryForReading => false
  | _ => true

/-- Whether the strategy can end with nothing. -/
def mayFail (s : Strategy) : Bool := !s.mayBlock

/-- The first stage of a strategy, and those that follow while nothing was obtained. -/
def stages : Strategy → Stage × List Stage
  | .forReading => (⟨.read, true⟩, [])
  | .forWriting => (⟨.write, true⟩, [])
  | .tryForReading => (⟨.read, false⟩, [])
  | .tryForWriting => (⟨.write, false⟩, [])
  | .tryForWritingThenForReading => (⟨.write, false⟩, [⟨.read, true⟩])
  | .tryForWritingThenTryForReading => (⟨.write, false⟩, [⟨.read, false⟩])

/-- The strategy that waits for a mode. -/
def waitFor : Mode → Strategy
  | .read => .forReading
  | .write => .forWriting

/-- The strategy that takes a mode only if it is there at once. -/
def tryFor : Mode → Strategy
  | .read => .tryForReading
  | .write => .tryForWriting

end Strategy

end Interlock.ReadWrite
