import Interlock.FlagByte

/-!
# Control flags of a pool

Three flags steer the end of a pool: a stop was asked for, a caller holds the reaper's role, and
all workers have been joined.  Each is flipped by one test-and-set, so that any thread may do it.
-/

namespace Interlock.Pool

/-- The control flags. -/
structure Control where
  flags : FlagByte := {}
  deriving DecidableEq, Repr, Inhabited

namespace Control

/-- A stop was asked for. -/
def stopMask : UInt8 := FlagByte.mask 0

/-- Somebody holds the reaper's role. -/
def reapingMask : UInt8 := FlagByte.mask 1

/-- All workers have been joined. -/
def reapedMask : UInt8 := FlagByte.mask 2

/-- Whether a stop was asked for. -/
def isStopping (c : Control) : Bool := c.flags.isSet stopMask

/-- Whether somebody holds the reaper's role. -/
def isReaping (c : Control) : Bool := c.flags.isSet reapingMask

/-- Whether all workers have been joined. -/
def isReaped (c : Control) : Bool := c.flags.isSet reapedMask

/-- Asks for a stop; tells whether this call was the first. -/
def requestStop (c : Control) : Bool × Control :=
  let (was, flags) := c.flags.testAndSet stopMask
  (!was, ⟨flags⟩)

/-- Claims the reaper's role; tells whether it was free. -/
def beginReaping (c : Control) : Bool × Control :=
  let (was, flags) := c.flags.testAndSet reapingMask
  (!was, ⟨flags⟩)

/-- Publishes that all workers have been joined. -/
def markReaped (c : Control) : List Log.Line × Control :=
  let (log, flags) := c.flags.setChecked reapedMask "threads-reaped"
  (log, ⟨flags⟩)

/-- Gives the reaper's role back. -/
def yieldReaping (c : Control) : List Log.Line × Control :=
  let (log, flags) := c.flags.clearChecked reapingMask "reaping-threads"
  (log, ⟨flags⟩)

/-- Publishes that all workers have been joined and gives the role back, in this order. -/
def finishReaping (c : Control) : List Log.Line × Control :=
  let (marked, c) := c.markReaped
  let (yielded, c) := c.yieldReaping
  (marked ++ yielded, c)

/-- Gives the role back without having joined anybody. -/
def cancelReaping (c : Control) : List Log.Line × Control := c.yieldReaping

/-! ## What each change does to the flags

The three masks are different bits of one byte, so that each change concerns one flag only. -/

section Laws

variable (c : Control)

@[simp] theorem isStopping_requestStop : c.requestStop.2.isStopping = true :=
  FlagByte.isSet_set_self _ (by decide)

@[simp] theorem isReaping_requestStop : c.requestStop.2.isReaping = c.isReaping :=
  FlagByte.isSet_set_of_disjoint _ (by decide)

@[simp] theorem isReaped_requestStop : c.requestStop.2.isReaped = c.isReaped :=
  FlagByte.isSet_set_of_disjoint _ (by decide)

@[simp] theorem isStopping_beginReaping : c.beginReaping.2.isStopping = c.isStopping :=
  FlagByte.isSet_set_of_disjoint _ (by decide)

@[simp] theorem isReaping_beginReaping : c.beginReaping.2.isReaping = true :=
  FlagByte.isSet_set_self _ (by decide)

@[simp] theorem isReaped_beginReaping : c.beginReaping.2.isReaped = c.isReaped :=
  FlagByte.isSet_set_of_disjoint _ (by decide)

/-- The flag is published silently when it was not published before. -/
theorem log_markReaped (h : c.isReaped = false) : c.markReaped.1 = [] := by
  show (if c.isReaped then _ else []) = []
  simp [h]

@[simp] theorem isStopping_markReaped : c.markReaped.2.isStopping = c.isStopping :=
  FlagByte.isSet_set_of_disjoint _ (by decide)

@[simp] theorem isReaping_markReaped : c.markReaped.2.isReaping = c.isReaping :=
  FlagByte.isSet_set_of_disjoint _ (by decide)

@[simp] theorem isReaped_markReaped : c.markReaped.2.isReaped = true :=
  FlagByte.isSet_set_self _ (by decide)

/-- The role is given back silently by whoever holds it. -/
theorem log_yieldReaping (h : c.isReaping = true) : c.yieldReaping.1 = [] := by
  show (if c.isReaping then [] else _) = []
  simp [h]

@[simp] theorem isStopping_yieldReaping : c.yieldReaping.2.isStopping = c.isStopping :=
  FlagByte.isSet_clear_of_disjoint _ (by decide)

@[simp] theorem isReaping_yieldReaping : c.yieldReaping.2.isReaping = false :=
  FlagByte.isSet_clear_self _

@[simp] theorem isReaped_yieldReaping : c.yieldReaping.2.isReaped = c.isReaped :=
  FlagByte.isSet_clear_of_disjoint _ (by decide)

end Laws

/-- The flags as they are shown. -/
def render (c : Control) : String := "PoolControl \x7b bits: " ++ c.flags.render ++ " \x7d"

end Control

end Interlock.Pool
