/-!
# Durations and points in time

A duration is a 64-bit count of seconds and a count of nanoseconds below one second.  A point in
time counts from the start of the clock; the clock's seconds are a signed 64-bit word, so a
deadline too far off has no representation.
-/

namespace Interlock

/-- A span of time. -/
structure Duration where
  secs : UInt64
  nanos : Nat
  nanos_lt : nanos < 1000000000
  deriving DecidableEq, Repr

namespace Duration

/-- No time at all. -/
def zero : Duration := ⟨0, 0, by decide⟩

instance : Inhabited Duration := ⟨zero⟩

/-- The longest span. -/
def max : Duration := ⟨0xffffffffffffffff, 999999999, by decide⟩

/-- A span of whole milliseconds. -/
def ofMillis (ms : UInt64) : Duration :=
  ⟨ms / 1000, ms.toNat % 1000 * 1000000, by
    have : ms.toNat % 1000 < 1000 := Nat.mod_lt _ (by decide)
    omega⟩

/-- A span of seconds and nanoseconds; nanoseconds beyond one second are dropped. -/
def ofParts (secs : UInt64) (nanos : Nat) : Duration :=
  ⟨secs, nanos % 1000000000, Nat.mod_lt _ (by decide)⟩

/-- Whether the span is empty. -/
def isZero (d : Duration) : Bool := d.secs == 0 && d.nanos == 0

/-- The span in nanoseconds. -/
def toNanos (d : Duration) : Nat := d.secs.toNat * 1000000000 + d.nanos

theorem isZero_iff (d : Duration) : d.isZero = true ↔ d.toNanos = 0 := by
  simp only [isZero, Bool.and_eq_true, beq_iff_eq, toNanos]
  constructor
  · rintro ⟨hs, hn⟩
    simp [hs, hn]
  · intro h
    refine ⟨UInt64.toNat_inj.1 ?_, by omega⟩
    have : d.secs.toNat = 0 := by omega
    simpa using this

/-! ## Text -/

/-- `n` with `width` digits, filled with zeros from the left. -/
def padded (width n : Nat) : List Char :=
  let digits := (toString n).toList
  List.replicate (width - digits.length) '0' ++ digits

/-- A fraction of `width` decimal places, without trailing zeros; nothing if it is zero. -/
def fraction (width n : Nat) : List Char :=
  match ((padded width n).reverse.dropWhile (· == '0')).reverse with
  | [] => []
  | digits => '.' :: digits

/-- A whole number and its fraction of `width` places, in a unit. -/
def measure (whole width part : Nat) (unit : String) : String :=
  toString whole ++ String.ofList (fraction width part) ++ unit

/-- The span in the largest unit of which it holds at least one, exactly. -/
def render (d : Duration) : String :=
  if d.secs ≠ 0 then measure d.secs.toNat 9 d.nanos "s"
  else if d.nanos ≥ 1000000 then measure (d.nanos / 1000000) 6 (d.nanos % 1000000) "ms"
  else if d.nanos ≥ 1000 then measure (d.nanos / 1000) 3 (d.nanos % 1000) "µs"
  else measure d.nanos 1 0 "ns"

/-- The span as seconds with all nine decimal places. -/
def seconds (d : Duration) : String :=
  toString d.secs ++ "." ++ String.ofList (padded 9 d.nanos)

end Duration

/-- A span as the operating system takes it: both parts are signed 64-bit words. -/
structure Timespec where
  sec : Int64
  nsec : Int64
  deriving DecidableEq, Repr, Inhabited

/-- The span handed to the operating system: the seconds keep their 64 bits and change their
meaning to signed. -/
def Duration.toTimespec (d : Duration) : Timespec := ⟨d.secs.toInt64, Int64.ofNat d.nanos⟩

/-- A point in time, counted from the start of the clock. -/
structure Instant where
  secs : Nat
  nanos : Nat
  deriving DecidableEq, Repr, Inhabited

namespace Instant

/-- Seconds that the clock can count. -/
def maxSecs : Nat := 9223372036854775807

/-- The point in time a span later, if the clock can represent it. -/
def after? (now : Instant) (d : Duration) : Option Instant :=
  let nanos := now.nanos + d.nanos
  let secs := now.secs + d.secs.toNat + nanos / 1000000000
  if secs ≤ maxSecs then some ⟨secs, nanos % 1000000000⟩ else none

end Instant

end Interlock
