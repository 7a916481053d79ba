/-!
# Log lines

What the locks and the pool report while they work.  A line is a value: an operation hands back
the lines it logged and never prints them itself.
-/

namespace Interlock.Log

/-- How much a line matters, the gravest first. -/
inductive Level where
  | error
  | warn
  | info
  | debug
  | trace
  deriving DecidableEq, Repr, Inhabited

namespace Level

/-- The word in front of a line. -/
def name : Level → String
  | .error => "ERROR"
  | .warn => "WARN"
  | .info => "INFO"
  | .debug => "DEBUG"
  | .trace => "TRACE"

/-- The place of a level, counted from the gravest: a threshold of `n` shows the levels whose
rank is at most `n`, and a threshold of 0 shows none. -/
def rank : Level → Nat
  | .error => 1
  | .warn => 2
  | .info => 3
  | .debug => 4
  | .trace => 5

end Level

/-- One logged line. -/
structure Line where
  level : Level
  text : String
  deriving DecidableEq, Repr, Inhabited

/-- A line as it is written: its level, a space, its text. -/
def Line.render (line : Line) : String := line.level.name ++ " " ++ line.text

/-- A line at level `error`. -/
def Line.error (text : String) : Line := ⟨.error, text⟩

/-- A line at level `warn`. -/
def Line.warn (text : String) : Line := ⟨.warn, text⟩

/-- A line at level `info`. -/
def Line.info (text : String) : Line := ⟨.info, text⟩

/-- A line at level `debug`. -/
def Line.debug (text : String) : Line := ⟨.debug, text⟩

/-- Adds a line at level `debug` to a log kept latest first, if `on`. -/
def debugIf (on : Bool) (text : String) (log : List Line) : List Line :=
  if on then Line.debug text :: log else log

/-- What stands for a lock's address in front of its messages: the address itself says nothing
about what the lock does. -/
def lockAddress : String := "<ptr>"

end Interlock.Log
