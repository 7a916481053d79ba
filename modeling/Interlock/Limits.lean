/-!
# Limits and defaults

The numbers that the locks and the pool agree on.
-/

namespace Interlock.Limits

/-- Failures that a lock operation absorbs before it gives up. -/
def spuriousRetries : Nat := 2

/-- Retries between a failed first try and a blocking wait, unless a lock is made with its own. -/
def spins : Nat := 64

/-- Most worker threads in a pool. -/
def workers : Nat := 64

/-- Smallest stack, in bytes, that a worker may be given explicitly. -/
def stackBytes : Nat := 16 * 1024

/-- How long a submitter sleeps between two looks at the idle queue, in milliseconds. -/
def parkMillis : Nat := 10

end Interlock.Limits
