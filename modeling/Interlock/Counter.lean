/-!
# Statistics counters

A counter is a 64-bit word: it wraps around, so that counting down from 0 gives the largest word.
-/

namespace Interlock

/-- A wrapping 64-bit counter. -/
structure Counter where
  value : UInt64 := 0
  deriving DecidableEq, Repr, Inhabited

namespace Counter

/-- Counts one up. -/
def increment (c : Counter) : Counter := ⟨c.value + 1⟩

/-- Counts one down. -/
def decrement (c : Counter) : Counter := ⟨c.value - 1⟩

/-- The counter at zero. -/
def zero : Counter := ⟨0⟩

/-- The counter as it is shown. -/
def render (c : Counter) : String := "Counter(" ++ toString c.value ++ ")"

@[simp] theorem value_increment (c : Counter) : c.increment.value = c.value + 1 := rfl

@[simp] theorem value_decrement (c : Counter) : c.decrement.value = c.value - 1 := rfl

@[simp] theorem value_zero : zero.value = 0 := rfl

/-- Counting up and down again changes nothing, also at the ends of the range. -/
@[simp] theorem decrement_increment (c : Counter) : c.increment.decrement = c := by
  cases c; simp [increment, decrement]

@[simp] theorem increment_decrement (c : Counter) : c.decrement.increment = c := by
  cases c; simp [increment, decrement]

end Counter

end Interlock
