/-!
# Machines

What a pool has to know of the machine that it runs on.
-/

namespace Interlock

/-- A machine. -/
structure Machine where
  /-- Cores that threads may run on. -/
  cores : Nat
  /-- Bytes of memory. -/
  memory : Nat
  deriving DecidableEq, Repr, Inhabited

end Interlock
