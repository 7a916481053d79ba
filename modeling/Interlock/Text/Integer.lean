/-!
# Decimal integers

An integer is written as an optional sign and one or more ASCII digits.  `+` is always allowed,
`-` only where the type has negative values.  Leading zeros do not matter.  A number outside the
range of its type is not read at all.
-/

namespace Interlock.Text

/-- A range of integers that a machine word holds. -/
structure IntegerType where
  signed : Bool
  bits : Nat
  deriving DecidableEq, Repr, Inhabited

namespace IntegerType

/-- Words without a sign. -/
def unsigned (bits : Nat) : IntegerType := ⟨false, bits⟩

/-- Words with a sign. -/
def withSign (bits : Nat) : IntegerType := ⟨true, bits⟩

/-- The largest value. -/
def maxValue (t : IntegerType) : Nat :=
  if t.signed then Nat.pow 2 (t.bits - 1) - 1 else Nat.pow 2 t.bits - 1

/-- How far below zero the values reach. -/
def maxBelow (t : IntegerType) : Nat := if t.signed then Nat.pow 2 (t.bits - 1) else 0

/-- Whether a number is a value of the type. -/
def Holds (t : IntegerType) (n : Int) : Prop := -(t.maxBelow : Int) ≤ n ∧ n ≤ t.maxValue

instance (t : IntegerType) (n : Int) : Decidable (t.Holds n) :=
  inferInstanceAs (Decidable (_ ∧ _))

end IntegerType

/-- The value of an ASCII digit. -/
def digitValue? (c : Char) : Option Nat := if c.isDigit then some (c.toNat - 48) else none

/-- Reads digits on from the value read so far, and stops at the first one that is no digit or
that takes the value past `limit`. -/
def readDigits (limit : Nat) : Nat → List Char → Option Nat
  | value, [] => some value
  | value, c :: rest =>
    match digitValue? c with
    | none => none
    | some d => if value * 10 + d ≤ limit then readDigits limit (value * 10 + d) rest else none

/-- Reads one or more digits. -/
def readNat (limit : Nat) : List Char → Option Nat
  | [] => none
  | digits => readDigits limit 0 digits

/-- Reads an integer of type `t`. -/
def readInteger (t : IntegerType) : List Char → Option Int
  | '+' :: digits => (readNat t.maxValue digits).map Int.ofNat
  | '-' :: digits =>
    if t.signed then (readNat t.maxBelow digits).map fun n => -Int.ofNat n else none
  | digits => (readNat t.maxValue digits).map Int.ofNat

end Interlock.Text
