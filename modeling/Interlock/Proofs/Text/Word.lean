import Interlock.Proofs.Text.Numeral
import Mathlib.Algebra.Group.Int.Defs
import Mathlib.Algebra.Group.Nat.Defs

/-!
# Reading into machine words

A machine reads an integer into a word of its type.  Its arithmetic wraps around, so each
multiplication, addition and subtraction is checked for overflow, and reading stops at the first one
that overflows (`readWord`).  No text makes a word wrap around: what is read into a word is the
integer that the text stands for, or nothing if that is out of range (`map_readWordInteger`).
-/

namespace Interlock.Text

namespace IntegerType

variable (t : IntegerType)

/-- The number in a word. -/
def value (x : BitVec t.bits) : Int := if t.signed then x.toInt else x.toNat

/-- A number, if the type holds it. -/
def fit (n : Int) : Option Int := if t.Holds n then some n else none

/-- A word, unless the operation that gives it overflows. -/
def checked (overflow : Bool) (x : BitVec t.bits) : Option (BitVec t.bits) :=
  if overflow then none else some x

/-- The product of two words, unless it overflows. -/
def mul? (x y : BitVec t.bits) : Option (BitVec t.bits) :=
  t.checked (if t.signed then x.smulOverflow y else x.umulOverflow y) (x * y)

/-- The sum of two words, unless it overflows. -/
def add? (x y : BitVec t.bits) : Option (BitVec t.bits) :=
  t.checked (if t.signed then x.saddOverflow y else x.uaddOverflow y) (x + y)

/-- The difference of two words, unless it overflows. -/
def sub? (x y : BitVec t.bits) : Option (BitVec t.bits) :=
  t.checked (if t.signed then x.ssubOverflow y else x.usubOverflow y) (x - y)

variable {t}

theorem natCast_two_pow (n : Nat) : ((2 ^ n : Nat) : Int) = 2 ^ n := Int.natCast_pow ..

theorem holds_of_signed (signed : t.signed = true) {n : Int} :
    t.Holds n ↔ -2 ^ (t.bits - 1) ≤ n ∧ n < 2 ^ (t.bits - 1) := by
  have positive : 0 < 2 ^ (t.bits - 1) := Nat.two_pow_pos _
  have cast := natCast_two_pow (t.bits - 1)
  simp only [Holds, maxBelow, maxValue, signed, ↓reduceIte, Nat.pow_eq]
  omega

theorem holds_of_unsigned (unsigned : t.signed = false) {n : Int} :
    t.Holds n ↔ 0 ≤ n ∧ n < 2 ^ t.bits := by
  have positive : 0 < 2 ^ t.bits := Nat.two_pow_pos _
  have cast := natCast_two_pow t.bits
  simp only [Holds, maxBelow, maxValue, unsigned, Bool.false_eq_true, ↓reduceIte, Nat.pow_eq]
  omega

/-- An operation that overflows exactly if its result is out of range, and is exact if it does not
overflow, gives the exact result, if the type holds it. -/
theorem map_value_checked {overflow : Bool} {x : BitVec t.bits} {n : Int}
    (fits : overflow = false ↔ t.Holds n) (faithful : overflow = false → t.value x = n) :
    (t.checked overflow x).map t.value = t.fit n := by
  unfold checked fit
  cases overflow with
  | true => simp [← fits]
  | false => simp [← fits, faithful rfl]

theorem of_map_value_eq_fit {o : Option (BitVec t.bits)} {n : Int} (h : o.map t.value = t.fit n) :
    t.Holds n ∧ (∃ x, o = some x ∧ t.value x = n) ∨ ¬ t.Holds n ∧ o = none := by
  unfold fit at h
  split at h
  · next holds => exact .inl ⟨holds, Option.map_eq_some_iff.1 h⟩
  · next past => exact .inr ⟨past, Option.map_eq_none_iff.1 h⟩

section Operations

variable {x y : BitVec t.bits}

theorem map_value_mul? : (t.mul? x y).map t.value = t.fit (t.value x * t.value y) := by
  cases signed : t.signed with
  | true =>
    refine map_value_checked ?_ ?_ <;>
      simp only [value, signed, holds_of_signed signed, ↓reduceIte]
    · simp only [BitVec.smulOverflow, Bool.or_eq_false_iff, decide_eq_false_iff_not]
      omega
    · exact fun fits => BitVec.toInt_mul_of_not_smulOverflow (by simp [fits])
  | false =>
    refine map_value_checked ?_ ?_ <;>
      simp only [value, signed, holds_of_unsigned signed, Bool.false_eq_true, ↓reduceIte]
    · have cast := natCast_two_pow t.bits
      simp only [BitVec.umulOverflow, decide_eq_false_iff_not, ← Int.natCast_mul]
      omega
    · intro fits
      rw [BitVec.toNat_mul_of_not_umulOverflow (by simp [fits]), Int.natCast_mul]

theorem map_value_add? : (t.add? x y).map t.value = t.fit (t.value x + t.value y) := by
  cases signed : t.signed with
  | true =>
    refine map_value_checked ?_ ?_ <;>
      simp only [value, signed, holds_of_signed signed, ↓reduceIte]
    · simp only [BitVec.saddOverflow, Bool.or_eq_false_iff, decide_eq_false_iff_not]
      omega
    · exact fun fits => BitVec.toInt_add_of_not_saddOverflow (by simp [fits])
  | false =>
    refine map_value_checked ?_ ?_ <;>
      simp only [value, signed, holds_of_unsigned signed, Bool.false_eq_true, ↓reduceIte]
    · have cast := natCast_two_pow t.bits
      simp only [BitVec.uaddOverflow, decide_eq_false_iff_not]
      omega
    · intro fits
      rw [BitVec.toNat_add_of_not_uaddOverflow (by simp [fits]), Int.natCast_add]

theorem map_value_sub? : (t.sub? x y).map t.value = t.fit (t.value x - t.value y) := by
  cases signed : t.signed with
  | true =>
    refine map_value_checked ?_ ?_ <;>
      simp only [value, signed, holds_of_signed signed, ↓reduceIte]
    · simp only [BitVec.ssubOverflow, Bool.or_eq_false_iff, decide_eq_false_iff_not]
      omega
    · exact fun fits => BitVec.toInt_sub_of_not_ssubOverflow (by simp [fits])
  | false =>
    have cast := natCast_two_pow t.bits
    have bound := x.isLt
    refine map_value_checked ?_ ?_ <;>
      simp only [value, signed, holds_of_unsigned signed, Bool.false_eq_true, ↓reduceIte,
        BitVec.usubOverflow, decide_eq_false_iff_not]
    · omega
    · intro fits
      rw [BitVec.toNat_sub_of_not_usubOverflow (by simp [BitVec.usubOverflow, fits])]
      omega

end Operations

/-- Small numbers are what they are in a word of at least eight bits. -/
theorem value_ofNat (wide : 8 ≤ t.bits) {n : Nat} (small : n < 128) :
    t.value (BitVec.ofNat t.bits n) = n := by
  have room : 2 ^ 8 ≤ 2 ^ t.bits := Nat.pow_le_pow_right (by decide) wide
  have fits : n % 2 ^ t.bits = n := Nat.mod_eq_of_lt (by omega)
  unfold value
  split
  · rw [BitVec.toInt_eq_toNat_cond, BitVec.toNat_ofNat, fits, if_pos (by omega)]
  · rw [BitVec.toNat_ofNat, fits]

end IntegerType

/-! ## Reading -/

variable {t : IntegerType}

/-- Reads digits on from the word read so far.  `next` adds a digit, or takes it away if the number
is negative. -/
def readWord (t : IntegerType) (next : BitVec t.bits → BitVec t.bits → Option (BitVec t.bits)) :
    BitVec t.bits → List Char → Option (BitVec t.bits)
  | x, [] => some x
  | x, c :: rest =>
    (digitValue? c).bind fun d =>
      (t.mul? x (BitVec.ofNat t.bits 10)).bind fun tens =>
        (next tens (BitVec.ofNat t.bits d)).bind fun y => readWord t next y rest

/-- Reads one or more digits into a word. -/
def readWord? (t : IntegerType)
    (next : BitVec t.bits → BitVec t.bits → Option (BitVec t.bits)) (s : List Char) :
    Option (BitVec t.bits) :=
  if s.isEmpty then none else readWord t next (BitVec.ofNat t.bits 0) s

/-- Reads an integer of type `t` into a word. -/
def readWordInteger (t : IntegerType) : List Char → Option (BitVec t.bits)
  | '+' :: digits => readWord? t t.add? digits
  | '-' :: digits => if t.signed then readWord? t t.sub? digits else none
  | digits => readWord? t t.add? digits

theorem digitValue?_le {c : Char} {d : Nat} (h : digitValue? c = some d) : d ≤ 9 := by
  obtain ⟨digit, rfl⟩ := digitValue?_eq_some_iff.1 h
  have range := Char.isDigit_iff_toNat.1 digit
  have nine : '9'.toNat = 57 := rfl
  have zero : '0'.toNat = 48 := rfl
  omega

section Loop

variable {next : BitVec t.bits → BitVec t.bits → Option (BitVec t.bits)}
  (sign : Int) (limit : Nat) (wide : 8 ≤ t.bits)
  (goes : ∀ x y, (next x y).map t.value = t.fit (t.value x + sign * t.value y))
  (within : ∀ n : Nat, t.Holds (sign * n) ↔ n ≤ limit)

include wide goes within

/-- The word is at each step the number read so far, with its sign.  It overflows exactly when that
number is past the limit. -/
theorem map_value_readWord {x : BitVec t.bits} {v : Nat} (hx : t.value x = sign * v)
    (s : List Char) :
    (readWord t next x s).map t.value =
      (readDigits limit v s).map fun n : Nat => sign * (n : Int) := by
  induction s generalizing x v with
  | nil => simp [readWord, readDigits, hx]
  | cons c s ih =>
    unfold readWord readDigits
    cases hc : digitValue? c with
    | none => rfl
    | some d =>
      have digit := digitValue?_le hc
      have ten := t.value_ofNat wide (show 10 < 128 by decide)
      have unit := t.value_ofNat wide (show d < 128 by omega)
      have tenfold := IntegerType.map_value_mul? (t := t) (x := x) (y := BitVec.ofNat t.bits 10)
      rw [hx, ten, Int.mul_assoc, ← Int.natCast_mul] at tenfold
      rw [Option.bind_some]
      dsimp only
      rcases IntegerType.of_map_value_eq_fit tenfold with ⟨-, y, hy, valued⟩ | ⟨past, none⟩
      · have sum := goes y (BitVec.ofNat t.bits d)
        rw [valued, unit, ← Int.mul_add, ← Int.natCast_add] at sum
        rw [hy, Option.bind_some]
        rcases IntegerType.of_map_value_eq_fit sum with ⟨holds, z, hz, valued'⟩ | ⟨past, none⟩
        · rw [hz, Option.bind_some, if_pos ((within _).1 holds)]
          exact ih valued'
        · rw [none, if_neg fun low => past ((within _).2 low)]
          rfl
      · rw [none, if_neg fun low => past ((within _).2 (by omega))]
        rfl

theorem map_value_readWord? (s : List Char) :
    (readWord? t next s).map t.value = (readNat limit s).map fun n : Nat => sign * (n : Int) := by
  cases s with
  | nil => rfl
  | cons c s =>
    have zero := t.value_ofNat wide (show 0 < 128 by decide)
    exact map_value_readWord sign limit wide goes within (by simp [zero]) (c :: s)

end Loop

section Bare

variable {s : List Char} (plus : s.head? ≠ some '+') (minus : s.head? ≠ some '-')

include plus minus

theorem readWordInteger_bare : readWordInteger t s = readWord? t t.add? s := by
  unfold readWordInteger
  split
  · exact absurd rfl plus
  · exact absurd rfl minus
  · rfl

theorem readInteger_bare : readInteger t s = (readNat t.maxValue s).map Int.ofNat := by
  unfold readInteger
  split
  · exact absurd rfl plus
  · exact absurd rfl minus
  · rfl

end Bare

/-- **No text makes a word wrap around.**  A text that is read into a word leaves there the integer
that it stands for, and it is not read if that integer is out of range. -/
theorem map_readWordInteger (wide : 8 ≤ t.bits) (s : List Char) :
    (readWordInteger t s).map t.value = readInteger t s := by
  have up (digits : List Char) :
      (readWord? t t.add? digits).map t.value = (readNat t.maxValue digits).map Int.ofNat := by
    have all := map_value_readWord? 1 t.maxValue wide
      (fun x y => by rw [Int.one_mul]; exact IntegerType.map_value_add?)
      (fun n => by rw [Int.one_mul]; exact IntegerType.holds_natCast) digits
    simp only [Int.one_mul] at all
    exact all
  have down (digits : List Char) :
      (readWord? t t.sub? digits).map t.value =
        (readNat t.maxBelow digits).map fun n : Nat => -Int.ofNat n := by
    have all := map_value_readWord? (-1) t.maxBelow wide
      (fun x y => by
        rw [Int.neg_one_mul, ← Int.sub_eq_add_neg]
        exact IntegerType.map_value_sub?)
      (fun n => by rw [Int.neg_one_mul]; exact IntegerType.holds_neg_natCast) digits
    simp only [Int.neg_one_mul] at all
    exact all
  by_cases plus : s.head? = some '+'
  · obtain ⟨digits, rfl⟩ := List.head?_eq_some_iff.1 plus
    exact up digits
  by_cases minus : s.head? = some '-'
  · obtain ⟨digits, rfl⟩ := List.head?_eq_some_iff.1 minus
    cases signed : t.signed with
    | true => simpa only [readWordInteger, readInteger, signed, if_true] using down digits
    | false => simp [readWordInteger, readInteger, signed]
  · rw [readWordInteger_bare plus minus, readInteger_bare plus minus]
    exact up s

end Interlock.Text
