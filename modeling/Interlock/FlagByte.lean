import Interlock.Log

/-!
# Flag bytes

A byte whose bits are flags, each set and cleared on its own.  Bit 0 is the high bit.
-/

namespace Interlock

/-- A byte of flags. -/
structure FlagByte where
  bits : UInt8 := 0
  deriving DecidableEq, Repr, Inhabited

namespace FlagByte

/-- The mask of bit number `bit`, counted from the high end; only the number modulo 8 counts. -/
def mask (bit : UInt8) : UInt8 := 0x80 >>> (bit &&& 7)

/-- Whether any flag of the mask is set. -/
def isSet (b : FlagByte) (mask : UInt8) : Bool := (b.bits &&& mask) != 0

/-- Sets every flag of the mask. -/
def set (b : FlagByte) (mask : UInt8) : FlagByte := ⟨b.bits ||| mask⟩

/-- Clears every flag of the mask. -/
def clear (b : FlagByte) (mask : UInt8) : FlagByte := ⟨b.bits &&& ~~~mask⟩

/-- Sets the flags of the mask and tells whether any of them was set before. -/
def testAndSet (b : FlagByte) (mask : UInt8) : Bool × FlagByte := (b.isSet mask, b.set mask)

/-- Clears the flags of the mask and tells whether any of them was set before. -/
def testAndClear (b : FlagByte) (mask : UInt8) : Bool × FlagByte := (b.isSet mask, b.clear mask)

/-- The hexadecimal digit of a number below 16. -/
def hexDigit (n : Nat) : Char :=
  if n < 10 then Char.ofNat (48 + n) else Char.ofNat (87 + n)

/-- A byte as two hexadecimal digits after `0x`. -/
def hex (byte : UInt8) : String :=
  "0x" ++ String.ofList [hexDigit (byte.toNat / 16), hexDigit (byte.toNat % 16)]

/-- The warning that a flag was already in the state it was to be brought into. -/
def already (state name : String) (mask : UInt8) : Log.Line :=
  .warn ("bit was already " ++ state ++ ": " ++ name ++ " (mask " ++ hex mask ++ ")")

/-- Sets a flag that is expected to be clear, and warns if it was not. -/
def setChecked (b : FlagByte) (mask : UInt8) (name : String) : List Log.Line × FlagByte :=
  (if b.isSet mask then [already "set" name mask] else [], b.set mask)

/-- Clears a flag that is expected to be set, and warns if it was not. -/
def clearChecked (b : FlagByte) (mask : UInt8) (name : String) : List Log.Line × FlagByte :=
  (if b.isSet mask then [] else [already "cleared" name mask], b.clear mask)

/-- The byte as it is shown. -/
def render (b : FlagByte) : String := "AtomicBits(" ++ toString b.bits ++ ")"

section Laws

variable (b : FlagByte) {mask other : UInt8}

theorem isSet_set_self (h : mask ≠ 0) : (b.set mask).isSet mask = true := by
  have both : (b.bits ||| mask) &&& mask = (b.bits &&& mask) ||| (mask &&& mask) :=
    UInt8.toBitVec_inj.1 BitVec.and_or_distrib_right
  simp [isSet, set, both, h]

/-- Setting a flag leaves the flags of another mask alone. -/
theorem isSet_set_of_disjoint (h : mask &&& other = 0) :
    (b.set mask).isSet other = b.isSet other := by
  have both : (b.bits ||| mask) &&& other = (b.bits &&& other) ||| (mask &&& other) :=
    UInt8.toBitVec_inj.1 BitVec.and_or_distrib_right
  simp [isSet, set, both, h]

theorem isSet_clear_self : (b.clear mask).isSet mask = false := by
  simp [isSet, clear, UInt8.and_assoc]

/-- Clearing a flag leaves the flags of another mask alone. -/
theorem isSet_clear_of_disjoint (h : mask &&& other = 0) :
    (b.clear mask).isSet other = b.isSet other := by
  have keep : ~~~mask &&& other = other := by
    calc ~~~mask &&& other = (~~~mask &&& other) ||| (mask &&& other) := by simp [h]
      _ = (~~~mask ||| mask) &&& other :=
        (UInt8.toBitVec_inj.1 BitVec.and_or_distrib_right).symm
      _ = other := by simp
  simp [isSet, clear, UInt8.and_assoc, keep]

end Laws

/-- Stores `new` in a byte that holds `old`, and leaves any other byte alone; tells which. -/
def compareAndSwap (byte old new : UInt8) : Bool × UInt8 :=
  if byte = old then (true, new) else (false, byte)

end FlagByte

end Interlock
