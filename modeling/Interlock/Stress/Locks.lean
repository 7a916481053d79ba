import Interlock.Exclusive.Session
import Interlock.Mutex.ErrorChecking
import Interlock.ReadWrite.Session

/-!
# Locks under load

Threads take turns at a count behind an exclusive lock, and at a cache behind a reader/writer
lock.
-/

namespace Interlock.Stress

/-- Threads of a run on a machine with `cores` cores. -/
def threads (cores : Nat) : Nat := 2 * cores

/-! ## A count -/

/-- A count that is only changed under its lock. -/
structure Tally where
  state : Exclusive.State Mutex.ErrorChecking := ⟨{}, { world := {} }⟩
  total : Nat := 0

namespace Tally

/-- A thread counts one up. -/
def count (thread : Nat) (t : Tally) : Tally :=
  match t.state.withLock (Mutex.ErrorChecking.backend thread) fun s => (.ok (), s) with
  | (.returned (), state) => { state, total := t.total + 1 }
  | (_, state) => { t with state }

/-- Each of `threads` threads counts up as many times as there are iterations. -/
def run (threads iterations : Nat) : Tally :=
  iterations.fold (fun _ _ t => threads.fold (fun thread _ t => t.count thread) t) {}

end Tally

/-! ## A cache -/

/-- Keys of the cache. -/
def cacheSize : Nat := 512

/-- The value that belongs to a key. -/
def compile (key : Nat) : UInt64 :=
  (List.range 64).foldl (fun value i => value * 31 + UInt64.ofNat i) (UInt64.ofNat key)

/-- A table of values that were computed once.  It is read under the read lock at least, and
changed under the write lock only. -/
structure Cache where
  session : ReadWrite.Session ReadWrite.Ideal
  values : Array (Option UInt64) := Array.replicate cacheSize none
  /-- Lookups that found a value or computed it. -/
  hits : Nat := 0

namespace Cache

/-- An empty cache for `threads` threads. -/
def empty (threads : Nat) : Cache := { session := ⟨.fresh threads Limits.spins {}, []⟩ }

/-- Reads a value under the read lock, and computes it if the write lock was to be had. -/
def find (level : ReadWrite.Level) (key : Nat) (values : Array (Option UInt64)) :
    Option UInt64 × Array (Option UInt64) :=
  match (values[key]?).join, level with
  | some value, _ => (some value, values)
  | none, .write => (some (compile key), values.setIfInBounds key (some (compile key)))
  | none, _ => (none, values)

/-- A thread looks a key up. -/
def lookUp (thread key : Nat) (c : Cache) : Cache :=
  let raw := ReadWrite.Ideal.raw
  match c.session.call raw thread (.acquire .tryForWritingThenForReading) with
  | (some (.acquired level), session) =>
    let (found, values) := find level key c.values
    { session := (session.call raw thread .release).2
      values
      hits := if found.isSome then c.hits + 1 else c.hits }
  | (_, session) => { c with session }

/-- Each of `threads` threads looks keys up, one in each iteration. -/
def run (threads iterations : Nat) : Cache :=
  iterations.fold (fun i _ c =>
    threads.fold (fun thread _ c => c.lookUp thread ((i * 7 + thread) % cacheSize)) c)
    (empty threads)

end Cache

end Interlock.Stress
