/-!
# How code ends

Code that runs inside a lock or a job returns a value or unwinds with a payload.  Whoever catches a
payload drops it in the end, and a payload's destructor is code too: it may unwind in turn.
-/

namespace Interlock

/-- What an unwinding thread carries. -/
inductive Payload where
  /-- A message. -/
  | text (message : String)
  /-- A value that is no message. -/
  | other
  /-- A value that is no message, and whose destructor unwinds with another payload. -/
  | bomb (next : Payload)
  deriving DecidableEq, Repr, Inhabited

namespace Payload

/-- A payload as it is shown in a log. -/
def describe : Payload → String
  | .text message => message
  | .other => "<non-string panic payload>"
  | .bomb _ => "<non-string panic payload>"

/-- Whether a payload can be dropped without unwinding again. -/
def isInert : Payload → Bool
  | .bomb _ => false
  | _ => true

@[simp] theorem describe_text (message : String) : describe (.text message) = message := rfl

/-- A payload that can be dropped. -/
abbrev Inert : Type := { payload : Payload // payload.isInert = true }

end Payload

/-- How a piece of code ends: with a value, or unwinding. -/
abbrev Ending (α : Type) : Type := Except Payload α

/-- How dropping a payload ends. -/
def Payload.drop : Payload → Ending Unit
  | .bomb next => .error next
  | _ => .ok ()

/-- Whether code that ends like this leaves nothing behind that unwinds when it is dropped. -/
def Ending.isClean {α : Type} : Ending α → Bool
  | .ok _ => true
  | .error payload => payload.isInert

/-- How a call came out that runs code between taking something and giving it back. -/
inductive Outcome (α : Type) where
  | returned (value : α)
  /-- The caller unwinds. -/
  | unwound (payload : Payload)
  /-- The call waits for another thread. -/
  | blocked
  /-- Giving back failed while the code was unwinding already, which ends the program. -/
  | aborted
  deriving DecidableEq, Repr, Inhabited

end Interlock
