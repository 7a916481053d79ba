import Interlock.Errno

/-!
# Failures of the operating system's primitives

A primitive answers with a code.  0 is success; three codes tell that the caller broke the
primitive's rules; every other code may pass when the call is made again.
-/

namespace Interlock

/-- A failed call of a primitive. -/
inductive PrimitiveError where
  /-- The call may be made again. -/
  | spurious (op : String) (code : Int)
  /-- The caller broke the primitive's rules. -/
  | misuse (op : String) (code : Int)
  deriving DecidableEq, Repr, Inhabited

namespace PrimitiveError

/-- The code that the primitive answered. -/
def code : PrimitiveError → Int
  | .spurious _ code => code
  | .misuse _ code => code

/-- Whether the call may be made again. -/
def isSpurious : PrimitiveError → Bool
  | .spurious _ _ => true
  | .misuse _ _ => false

/-- The failure in words. -/
def message : PrimitiveError → String
  | .spurious op code => op ++ ": spurious failure (code " ++ toString code ++ ")"
  | .misuse op code => op ++ ": misuse (code " ++ toString code ++ ")"

/-- The failure in words, with the meaning of its code. -/
def describe (e : PrimitiveError) : String :=
  e.message ++ " [" ++ Errno.describe e.code ++ "]"

/-- Whether a code tells that the caller broke the primitive's rules. -/
def isMisuseCode (code : Int) : Bool :=
  code == Errno.edeadlk || code == Errno.eperm || code == Errno.einval

/-- Reads the code that the primitive `op` answered. -/
def check (op : String) (code : Int) : Except PrimitiveError Unit :=
  if code == 0 then .ok ()
  else if isMisuseCode code then .error (.misuse op code)
  else .error (.spurious op code)

end PrimitiveError

end Interlock
